import CrustyDB.Heap.PageStore
import CrustyDB.Page.PageContract

/-! # A heap file is a map from record ids to values

The operations of a heap file on a store of zeroed pages, as long as only non-empty values are
stored: the file stands for a partial map from record ids to byte strings (`FileMap`), and
`prog_ends` says that a call on the file is a call on the map.

The argument is made on pages as slot directories (`IsFile`), where an operation changes one page. -/

namespace CrustyDB

open Program List Function SlotDir Option

/-! ### Operations and runs -/

/-- A call of a heap file. -/
inductive FileOp where
  | addVal (val : List UInt8)
  | getVal (pageId : PageId) (slotId : SlotId)
  | updateVal (pageId : PageId) (slotId : SlotId) (val : List UInt8)
  | deleteVal (pageId : PageId) (slotId : SlotId)
deriving DecidableEq, Repr

/-- What a call returns in `Ok`. -/
inductive FileAnswer where
  | id (id : ValueId)
  | value (val : List UInt8)
  | done
deriving DecidableEq, Repr

namespace FileOp

/-- The operation stores no empty value. -/
def NonEmpty : FileOp → Prop
  | addVal val => val ≠ []
  | updateVal _ _ val => val ≠ []
  | _ => True

instance (op : FileOp) : Decidable op.NonEmpty := by
  cases op <;> unfold NonEmpty <;> infer_instance

/-- The call on the heap file of a container. -/
def prog (c : ContainerId) : FileOp → HeapProg FileAnswer
  | addVal val => do pure (.id (← HeapFile.addVal c val))
  | getVal pageId slotId => do pure (.value (← HeapFile.getVal c pageId slotId))
  | updateVal pageId slotId val => do pure (.id (← HeapFile.updateVal c pageId slotId val))
  | deleteVal pageId slotId => do
    HeapFile.deleteVal c pageId slotId
    pure .done

end FileOp

/-- Calls on the heap file of a container that all return `Ok`. -/
inductive FileRun {P : Type} [FilePageOps P] (c : ContainerId) :
    PageStore P → List FileOp → List FileAnswer → PageStore P → Prop
  | nil {s : PageStore P} : FileRun c s [] [] s
  | cons {s t u : PageStore P} {op : FileOp} {a : FileAnswer} {ops : List FileOp}
      {as : List FileAnswer} (h : PageStore.exec (op.prog c) s = (.ok a, t))
      (hs : FileRun c t ops as u) : FileRun c s (op :: ops) (a :: as) u

/-! ### The map -/

/-- What a heap file stands for: the values by record id. -/
abbrev FileMap := ValueId → Option (List UInt8)

namespace FileMap

/-- The calls on a file map with the answers they may give. -/
inductive Step (c : ContainerId) : FileMap → FileOp → FileAnswer → FileMap → Prop
  | added {m : FileMap} {val : List UInt8} {id : ValueId} (free : m id = none) :
      Step c m (.addVal val) (.id id) (Function.update m id (some val))
  | got {m : FileMap} {p : PageId} {s : SlotId} {val : List UInt8}
      (live : m (.newSlot c p s) = some val) : Step c m (.getVal p s) (.value val) m
  | updated {m : FileMap} {p : PageId} {s : SlotId} {val : List UInt8}
      (live : m (.newSlot c p s) ≠ none) :
      Step c m (.updateVal p s val) (.id (.newSlot c p s))
        (Function.update m (.newSlot c p s) (some val))
  | moved {m : FileMap} {p : PageId} {s : SlotId} {val : List UInt8} {id : ValueId}
      (live : m (.newSlot c p s) ≠ none) (free : Function.update m (.newSlot c p s) none id = none) :
      Step c m (.updateVal p s val) (.id id)
        (Function.update (Function.update m (.newSlot c p s) none) id (some val))
  | deleted {m : FileMap} {p : PageId} {s : SlotId} (live : m (.newSlot c p s) ≠ none) :
      Step c m (.deleteVal p s) .done (Function.update m (.newSlot c p s) none)

/-- A sequence of calls with their answers. -/
inductive Run (c : ContainerId) : FileMap → List FileOp → List FileAnswer → FileMap → Prop
  | nil {m : FileMap} : Run c m [] [] m
  | cons {m m' m'' : FileMap} {op : FileOp} {a : FileAnswer} {ops : List FileOp}
      {as : List FileAnswer} (h : Step c m op a m') (hs : Run c m' ops as m'') :
      Run c m (op :: ops) (a :: as) m''

/-- The page and the slot of a record. -/
def position (id : ValueId) : ℕ × ℕ := (id.pageId.elim 0 UInt32.toNat, id.slotId.elim 0 UInt16.toNat)

/-- The list holds the records of the map, each once, in the order of pages and slots. -/
structure Lists (m : FileMap) (l : List (List UInt8 × ValueId)) : Prop where
  sorted : l.Pairwise (fun a b => Prod.Lex (· < ·) (· < ·) (position a.2) (position b.2))
  mem : ∀ v id, (v, id) ∈ l ↔ m id = some v

end FileMap

/-! ### The file as a list of directories -/

/-- The value of a record in the data pages `ds`. -/
def recordAt (c : ContainerId) (ds : List SlotDir) : FileMap
  | ⟨c', none, some p, some s⟩ =>
    if c' = c ∧ p ≠ 0 then (ds[p.toNat - 1]?).bind (fun d => d.get s) else none
  | _ => none

/-- The container holds a header page and the data pages `ds`, and each has an id of its own. -/
structure HasPages (c : ContainerId) (t : PageStore FilePage) (ds : List SlotDir) : Prop where
  pages : t.pages c = .blank 0 :: ds.map .heap
  wf : ∀ d ∈ ds, d.WF ∧ d.Exact
  bound : ds.length < 2 ^ 32

/-- A container with such pages whose page count has not wrapped around. -/
structure IsFile (c : ContainerId) (t : PageStore FilePage) (ds : List SlotDir) : Prop extends
    HasPages c t ds where
  short : ds.length + 1 < 2 ^ 32

section Pages

variable {c : ContainerId} {t : PageStore FilePage} {ds : List SlotDir}

namespace HasPages

section

variable (h : HasPages c t ds)
include h

theorem length_pages : (t.pages c).length = ds.length + 1 := by
  rw [h.pages, length_cons, length_map]

theorem page?_eq (p : PageId) : t.page? ⟨c, p⟩ = (t.pages c)[p.toNat]? := by
  unfold PageStore.page?
  dsimp only
  rw [PageStore.position_eq (by rw [h.length_pages]; exact h.bound)]

theorem dataPage {p : PageId} {i : ℕ} (hp : p.toNat = i + 1) {d : SlotDir}
    (hd : ds[i]? = some d) : t.page? ⟨c, p⟩ = some (.heap d) := by
  rw [h.page?_eq, h.pages, hp, getElem?_cons_succ, getElem?_map, hd]
  rfl

theorem header : t.page? ⟨c, 0⟩ = some (.blank 0) := by
  rw [h.page?_eq, h.pages]
  rfl

theorem setPages_eq (p : PageId) (q : FilePage) :
    (t.setPage ⟨c, p⟩ q).pages c = (t.pages c).set p.toNat q := by
  unfold PageStore.setPage PageStore.setPages
  dsimp only
  rw [update_self, PageStore.position_eq (by rw [h.length_pages]; exact h.bound)]

theorem setPage {p : PageId} {i : ℕ} (hp : p.toNat = i + 1) {d : SlotDir}
    (hw : d.WF ∧ d.Exact) : HasPages c (t.setPage ⟨c, p⟩ (.heap d)) (ds.set i d) := by
  refine ⟨?_, forall_mem_set h.wf hw, by rw [length_set]; exact h.bound⟩
  rw [h.setPages_eq, h.pages, hp, set_cons_succ, map_set]

end

end HasPages

namespace IsFile

theorem tick (h : IsFile c t ds) : IsFile c t.tick ds := ⟨⟨h.pages, h.wf, h.bound⟩, h.short⟩

theorem toNat_page (h : IsFile c t ds) {i : ℕ} (hi : i ≤ ds.length) :
    (UInt32.ofNat (i + 1)).toNat = i + 1 := by
  have hb := h.short
  rw [UInt32.toNat_ofNat']
  exact Nat.mod_eq_of_lt (by omega)

theorem setDataPage (h : IsFile c t ds) {p : PageId} {i : ℕ} (hp : p.toNat = i + 1) {d : SlotDir}
    (hw : d.WF ∧ d.Exact) : IsFile c (t.setPage ⟨c, p⟩ (.heap d)) (ds.set i d) :=
  ⟨h.setPage hp hw, by rw [length_set]; exact h.short⟩

end IsFile

end Pages

section Records

variable {c : ContainerId} {ds : List SlotDir} {p : PageId} {i : ℕ} {s : SlotId}
  {o : Option (List UInt8)}

theorem recordAt_newSlot (hp : p.toNat = i + 1) (s : SlotId) :
    recordAt c ds (.newSlot c p s) = (ds[i]?).bind (fun d => d.get s) := by
  have hne : p ≠ 0 := by
    rintro rfl
    exact absurd hp (by simp)
  show (if c = c ∧ p ≠ 0 then _ else _) = _
  rw [if_pos ⟨rfl, hne⟩, hp, Nat.add_sub_cancel]

/-- Two files whose pages differ in one slot of one page differ in one record. -/
theorem recordAt_update {ds' : List SlotDir} (hp : p.toNat = i + 1)
    (hs : ∀ j r, (ds'[j]?).bind (fun d => d.get r) =
      if j = i ∧ r = s then o else (ds[j]?).bind (fun d => d.get r)) :
    recordAt c ds' = Function.update (recordAt c ds) (.newSlot c p s) o := by
  funext id
  by_cases hid : id = .newSlot c p s
  · rw [hid, update_self, recordAt_newSlot hp, hs, if_pos ⟨rfl, rfl⟩]
  · rw [update_of_ne hid]
    match id, hid with
    | ⟨_, some _, _, _⟩, _ => rfl
    | ⟨_, none, none, _⟩, _ => rfl
    | ⟨_, none, some _, none⟩, _ => rfl
    | ⟨c', none, some q, some r⟩, hid =>
      show (if c' = c ∧ q ≠ 0 then _ else _) = if c' = c ∧ q ≠ 0 then _ else _
      split_ifs with hq
      · obtain ⟨rfl, hq0⟩ := hq
        have hq1 : q.toNat ≠ 0 := fun h0 => hq0 (UInt32.toNat_inj.mp h0)
        rw [hs, if_neg]
        rintro ⟨hqi, rfl⟩
        have hqp : q = p := UInt32.toNat_inj.mp (by omega)
        exact hid (by rw [hqp]; rfl)
      · rfl

theorem recordAt_set (hp : p.toNat = i + 1) {d d' : SlotDir} (hd : ds[i]? = some d)
    (hm : d'.toMap = Function.update d.toMap s o) :
    recordAt c (ds.set i d') = Function.update (recordAt c ds) (.newSlot c p s) o := by
  obtain ⟨hlt, -⟩ := List.getElem?_eq_some_iff.mp hd
  refine recordAt_update hp (fun j r => ?_)
  by_cases hj : j = i
  · subst hj
    rw [getElem?_set_self hlt, hd, bind_some, bind_some]
    show d'.toMap r = _
    rw [hm]
    by_cases hr : r = s
    · rw [hr, update_self, if_pos ⟨rfl, rfl⟩]
    · rw [update_of_ne hr, if_neg (fun h => hr h.2)]
      rfl
  · rw [getElem?_set_ne (Ne.symm hj), if_neg (fun h => hj h.1)]

theorem recordAt_append (hp : p.toNat = ds.length + 1) {d : SlotDir}
    (hm : d.toMap = Function.update (fun _ => none) s o) :
    recordAt c (ds ++ [d]) = Function.update (recordAt c ds) (.newSlot c p s) o := by
  refine recordAt_update hp (fun j r => ?_)
  rw [getElem?_append]
  by_cases hlt : j < ds.length
  · rw [if_pos hlt, if_neg (fun h => absurd h.1 (Nat.ne_of_lt hlt))]
  · rw [if_neg hlt, getElem?_eq_none (Nat.not_lt.mp hlt)]
    by_cases hj : j = ds.length
    · rw [hj, Nat.sub_self, getElem?_cons_zero, bind_some]
      show d.toMap r = _
      rw [hm]
      by_cases hr : r = s
      · rw [hr, update_self, if_pos ⟨rfl, rfl⟩]
      · rw [update_of_ne hr, if_neg (fun h => hr h.2)]
        rfl
    · rw [if_neg (fun h => hj h.1), getElem?_eq_none]
      rw [length_singleton]
      omega

end Records

/-! ### The calls on directories -/

section Calls

variable {c : ContainerId} {t : PageStore FilePage} {ds : List SlotDir} {key : ContainerPageId}
  {d d' : SlotDir} {Q : Unit → PageStore FilePage → Prop}
  {E : CrustyError → PageStore FilePage → Prop}

open PageStore HeapProg

theorem run_numPages_ofNat (t : PageStore FilePage) :
    run handler (HeapFile.numPages c) t = (.ok (UInt32.ofNat (t.pages c).length), t) := by
  have hmax : run handler (getMaxPageId c) t = (.ok (some (UInt32.ofNat (t.pages c).length)), t) :=
    run_op handler (I := memInterface) (.getMaxPageId c) t
  unfold HeapFile.numPages
  rw [run_bind_ok handler hmax, run_pure]
  rfl

theorem run_numPages (h : IsFile c t ds) :
    run handler (HeapFile.numPages c) t = (.ok (UInt32.ofNat (ds.length + 1)), t) := by
  rw [run_numPages_ofNat, h.length_pages]

variable {q : FilePage} {id p : PageId} {s : SlotId} {v : List UInt8}

theorem acquire_ends (hp : t.page? key = some q) (hQ : t.refuse t.requests = none → Q () t.tick)
    (hE : t.refuse t.requests ≠ none → E (.panic .unwrap) t.tick) {x : HeapProg Unit}
    (hx : run handler x t = t.acquire key) : Ends handler x t Q E := by
  unfold acquire at hx
  rw [hp] at hx
  cases hr : t.refuse t.requests with
  | none =>
    rw [hr] at hx
    exact .of_ok hx (hQ hr)
  | some e =>
    rw [hr] at hx
    exact .of_error hx (hE (by rw [hr]; exact some_ne_none e))

theorem getPageForWrite_ends (hp : t.page? key = some q)
    (hQ : t.refuse t.requests = none → Q () t.tick)
    (hE : t.refuse t.requests ≠ none → E (.panic .unwrap) t.tick) :
    Ends handler (getPageForWrite key) t Q E :=
  acquire_ends hp hQ hE (run_op handler (I := memInterface) (.getPageForWrite key) t)

theorem getPageForRead_ends (hp : t.page? key = some q)
    (hQ : t.refuse t.requests = none → Q () t.tick)
    (hE : t.refuse t.requests ≠ none → E (.panic .unwrap) t.tick) :
    Ends handler (getPageForRead key) t Q E :=
  acquire_ends hp hQ hE (run_op handler (I := memInterface) (.getPageForRead key) t)

theorem run_dropWriteGuard (t : PageStore FilePage) (key : ContainerPageId) :
    run handler (dropWriteGuard key) t = (.ok (), t) :=
  run_op handler (I := memInterface) (.dropWriteGuard key) t

theorem run_dropReadGuard (t : PageStore FilePage) (key : ContainerPageId) :
    run handler (dropReadGuard key) t = (.ok (), t) :=
  run_op handler (I := memInterface) (.dropReadGuard key) t

theorem run_addValue {bytes : List UInt8} {r : Option SlotId} (hp : t.page? key = some (.heap d))
    (ha : d.add bytes = .ok (r, d')) :
    run handler (addValue key bytes) t = (.ok r, t.setPage key (.heap d')) :=
  (run_op handler (I := memInterface) (.addValue key bytes) t).trans
    (changePage_eq hp (congrArg (Except.map FilePage.ofDir) ha))

theorem run_getValue (hp : t.page? key = some (.heap d)) (s : SlotId) :
    run handler (getValue key s) t = (.ok (d.get s), t) :=
  (run_op handler (I := memInterface) (.getValue key s) t).trans (onPage_eq hp rfl)

theorem run_getValue_blank (hp : t.page? key = some (.blank id)) (s : SlotId) :
    run handler (getValue key s) t = (.ok none, t) :=
  (run_op handler (I := memInterface) (.getValue key s) t).trans (onPage_eq hp rfl)

theorem run_updateValue {bytes : List UInt8} {r : Option Unit} (hp : t.page? key = some (.heap d))
    (hu : d.update s bytes = (r, d')) :
    run handler (updateValue key s bytes) t = (.ok r, t.setPage key (.heap d')) :=
  (run_op handler (I := memInterface) (.updateValue key s bytes) t).trans
    (changePage_eq hp (congrArg (fun x => Except.ok (FilePage.ofDir x)) hu))

theorem run_deleteValue {r : Option Unit} (hp : t.page? key = some (.heap d))
    (hu : d.delete s = (r, d')) :
    run handler (deleteValue key s) t = (.ok r, t.setPage key (.heap d')) :=
  (run_op handler (I := memInterface) (.deleteValue key s) t).trans
    (changePage_eq hp (congrArg (fun x => Except.ok (FilePage.ofDir x)) hu))

theorem run_getNumSlots (hp : t.page? key = some (.heap d)) :
    run handler (getNumSlots key) t = (.ok d.slots.length, t) :=
  (run_op handler (I := memInterface) (.getNumSlots key) t).trans (onPage_eq hp rfl)

/-- A page below the number of pages is the header or a data page. -/
theorem IsFile.page_cases (h : IsFile c t ds) (hlt : ¬ p ≥ UInt32.ofNat (ds.length + 1)) :
    p = 0 ∨ ∃ i d, p.toNat = i + 1 ∧ ds[i]? = some d ∧ d.WF ∧ d.Exact := by
  rw [ge_iff_le, UInt32.not_le, UInt32.lt_iff_toNat_lt, h.toNat_page le_rfl] at hlt
  cases hp : p.toNat with
  | zero => exact Or.inl (UInt32.toNat_inj.mp hp)
  | succ i =>
    have hi : i < ds.length := by omega
    exact Or.inr ⟨i, ds[i], rfl, getElem?_eq_getElem hi, h.wf _ (getElem_mem hi)⟩

theorem getVal_ends (h : IsFile c t ds) (p : PageId) (s : SlotId) :
    Ends handler (HeapFile.getVal c p s) t
      (fun v t' => IsFile c t' ds ∧ recordAt c ds (.newSlot c p s) = some v) (fun _ _ => True) := by
  unfold HeapFile.getVal
  refine Ends.step (run_numPages h) ?_
  split_ifs with hge
  · exact Ends.fail trivial
  rcases h.page_cases hge with rfl | ⟨i, d, hp, hd, -⟩
  · refine Ends.bind (getPageForRead_ends h.header (fun _ => ?_) (fun _ => trivial))
    refine Ends.step (run_getValue_blank h.tick.header s) ?_
    exact Ends.step (run_dropReadGuard _ _) (Ends.fail trivial)
  · refine Ends.bind (getPageForRead_ends (h.dataPage hp hd) (fun _ => ?_) (fun _ => trivial))
    refine Ends.step (run_getValue (h.tick.dataPage hp hd) s) ?_
    refine Ends.step (run_dropReadGuard _ _) ?_
    rw [recordAt_newSlot hp, hd, bind_some]
    cases d.get s with
    | none => exact Ends.fail trivial
    | some v => exact Ends.pure ⟨h.tick, rfl⟩

theorem run_deleteValue_blank (hp : t.page? key = some (.blank id)) (s : SlotId) :
    run handler (deleteValue key s) t = (.ok none, t.setPage key (.blank id)) :=
  (run_op handler (I := memInterface) (.deleteValue key s) t).trans (changePage_eq hp rfl)

theorem run_updateValue_blank (hp : t.page? key = some (.blank id)) (s : SlotId)
    (bytes : List UInt8) :
    run handler (updateValue key s bytes) t = (.ok none, t.setPage key (.blank id)) :=
  (run_op handler (I := memInterface) (.updateValue key s bytes) t).trans (changePage_eq hp rfl)

/-- A record that is deleted was live. -/
theorem deleteVal_ends (h : IsFile c t ds) (p : PageId) (s : SlotId) :
    Ends handler (HeapFile.deleteVal c p s) t (fun _ t' => ∃ ds', HasPages c t' ds' ∧
      recordAt c ds (.newSlot c p s) ≠ none ∧
      recordAt c ds' = Function.update (recordAt c ds) (.newSlot c p s) none) (fun _ _ => True) := by
  unfold HeapFile.deleteVal
  refine Ends.step (run_numPages h) ?_
  split_ifs with hge
  · exact Ends.fail trivial
  rcases h.page_cases hge with rfl | ⟨i, d, hp, hd, hw, he⟩
  · refine Ends.bind (getPageForWrite_ends h.header (fun _ => ?_) (fun _ => trivial))
    refine Ends.step (run_deleteValue_blank h.tick.header s) ?_
    exact Ends.step (run_dropWriteGuard _ _) (Ends.fail trivial)
  · refine Ends.bind (getPageForWrite_ends (h.dataPage hp hd) (fun _ => ?_) (fun _ => trivial))
    cases hu : d.delete s with
    | mk r d' =>
      refine Ends.step (run_deleteValue (h.tick.dataPage hp hd) hu) ?_
      refine Ends.step (run_dropWriteGuard _ _) ?_
      cases r with
      | none => exact Ends.fail trivial
      | some u =>
        have ha := delete_some hw hu
        obtain ⟨v, hv⟩ := ha.live
        have hm := toMap_of_set hv [] ha.values
        rw [if_pos rfl] at hm
        refine Ends.pure ⟨_, h.tick.setPage hp ⟨ha.wf, delete_exact he hu⟩, ?_,
          recordAt_set hp hd hm⟩
        rw [recordAt_newSlot hp, hd, bind_some, hv]
        exact some_ne_none v

/-- A value that a page takes gets a record id that was free. -/
theorem add_record (hv : v ≠ []) {i : ℕ} (hp : p.toNat = i + 1) (hd : ds[i]? = some d)
    (hw : d.WF ∧ d.Exact) (ha : d.add v = .ok (some s, d')) :
    (d'.WF ∧ d'.Exact) ∧ recordAt c ds (.newSlot c p s) = none ∧
      recordAt c (ds.set i d') = Function.update (recordAt c ds) (.newSlot c p s) (some v) := by
  have hadd := add_some hw.1 ha
  have hm := toMap_of_values hv (by rw [hadd.slot]; exact hadd.values)
  refine ⟨⟨hadd.wf, add_exact hw.2 hv ha⟩, ?_, recordAt_set hp hd hm⟩
  rw [recordAt_newSlot hp, hd, bind_some]
  exact firstFree_free hadd.slot

/-- What a call that stores a value returns. -/
def Stores (c : ContainerId) (ds : List SlotDir) (v : List UInt8) (id : ValueId)
    (t : PageStore FilePage) : Prop :=
  ∃ ds', HasPages c t ds' ∧ recordAt c ds id = none ∧
    recordAt c ds' = Function.update (recordAt c ds) id (some v)

theorem tryPages_ends (hv : v ≠ []) (ps : List PageId) (h : IsFile c t ds)
    (hps : ∀ p ∈ ps, ∃ i, p.toNat = i + 1 ∧ i < ds.length) :
    Ends handler (HeapFile.tryPages c v ps) t
      (fun r t' => match r with
        | none => IsFile c t' ds
        | some id => Stores c ds v id t') (fun _ _ => True) := by
  induction ps generalizing t with
  | nil => exact Ends.pure h
  | cons p ps ih =>
    obtain ⟨i, hp, hi⟩ := hps p mem_cons_self
    have hd := getElem?_eq_getElem hi
    have hw := h.wf _ (getElem_mem hi)
    obtain ⟨⟨r, d'⟩, ha⟩ := add_ok hw.2 v
    refine Ends.bind (getPageForWrite_ends (h.dataPage hp hd) (fun _ => ?_) (fun _ => trivial))
    refine Ends.step (run_addValue (h.tick.dataPage hp hd) ha) ?_
    refine Ends.step (run_dropWriteGuard _ _) ?_
    cases r with
    | some s =>
      obtain ⟨hw', hfree, hrec⟩ := add_record hv hp hd hw ha
      exact Ends.pure ⟨_, h.tick.setPage hp hw', hfree, hrec⟩
    | none =>
      obtain ⟨-, hsame⟩ := add_none ha
      have hset := h.tick.setDataPage hp (d := d') (hsame ▸ hw)
      rw [hsame, set_getElem_self] at hset
      exact ih (hsame ▸ hset) (fun q hq => hps q (mem_cons_of_mem p hq))

theorem create_ends (h : IsFile c t ds) {Q : Except MemPoolStatus PageId → PageStore FilePage → Prop}
    (hE : ∀ e t', Q (.error e) t')
    (hQ : ∀ t', (t'.pages c) =
        .blank 0 :: (ds ++ [SlotDir.empty (UInt32.ofNat (ds.length + 1))]).map .heap →
      Q (.ok (UInt32.ofNat (ds.length + 1))) t') :
    Ends handler (createHeapPage c) t Q E := by
  have hrun : run handler (createHeapPage c) t = t.create HeapPage.new c HeapPage.initHeapPage :=
    run_op handler (I := memInterface) (.createHeapPage c) t
  unfold create at hrun
  cases hr : t.refuse t.requests with
  | some e =>
    rw [hr] at hrun
    exact .of_ok hrun (hE e _)
  | none =>
    rw [hr, h.length_pages] at hrun
    refine .of_ok hrun (hQ _ ?_)
    show Function.update t.pages c (t.pages c ++ [_]) c = _
    rw [update_self, h.pages, map_append]
    rfl

theorem addOnNewPage_ends (hv : v ≠ []) (h : IsFile c t ds) :
    Ends handler (HeapFile.addOnNewPage c v) t (fun id t' => Stores c ds v id t')
      (fun _ _ => True) := by
  unfold HeapFile.addOnNewPage
  refine Ends.bind (create_ends h (fun e t' => Ends.fail trivial) (fun t' ht' => ?_))
  have hp : (UInt32.ofNat (ds.length + 1)).toNat = ds.length + 1 := h.toNat_page le_rfl
  let d := SlotDir.empty (UInt32.ofNat (ds.length + 1))
  have hw : d.WF ∧ d.Exact := ⟨empty_wf _, empty_exact _⟩
  have hfile : HasPages c t' (ds ++ [d]) := ⟨ht', forall_mem_append.mpr
    ⟨h.wf, forall_mem_singleton.mpr hw⟩, by rw [length_append]; exact h.short⟩
  have hd : (ds ++ [d])[ds.length]? = some d := getElem?_concat_length
  obtain ⟨⟨r, d'⟩, ha⟩ := add_ok hw.2 v
  dsimp only
  refine Ends.step (run_addValue (hfile.dataPage hp hd) ha) ?_
  refine Ends.step (run_dropWriteGuard _ _) ?_
  cases r with
  | none => exact Ends.fail trivial
  | some s =>
    obtain ⟨hw', -, -⟩ := add_record (c := c) hv hp hd hw ha
    have hadd := add_some hw.1 ha
    have hm := toMap_of_values hv (by rw [hadd.slot]; exact hadd.values)
    have hset : (ds ++ [d]).set ds.length d' = ds ++ [d'] := by
      rw [set_append_right _ _ le_rfl, Nat.sub_self]
      rfl
    refine Ends.pure ⟨ds ++ [d'], hset ▸ hfile.setPage hp hw', ?_, recordAt_append hp hm⟩
    rw [recordAt_newSlot hp, getElem?_eq_none le_rfl]
    rfl

theorem mem_dataPages {k : PageId} (h : p ∈ HeapFile.dataPages k) :
    ∃ i, p.toNat = i + 1 ∧ i + 1 < k.toNat := by
  obtain ⟨j, hj, rfl⟩ := mem_map.mp h
  rw [mem_range'_1] at hj
  have hk := k.toNat_lt
  refine ⟨j - 1, ?_, by omega⟩
  rw [UInt32.toNat_ofNat', Nat.mod_eq_of_lt (by omega)]
  omega

/-- A value that is added gets a record id that was free, and no other record changes. -/
theorem addVal_ends (hv : v ≠ []) (h : IsFile c t ds) :
    Ends handler (HeapFile.addVal c v) t (fun id t' => Stores c ds v id t') (fun _ _ => True) := by
  unfold HeapFile.addVal
  refine Ends.step (run_numPages h) (Ends.bind ?_)
  refine (tryPages_ends hv _ h (fun p hp => ?_)).mono (fun r t' ht' => ?_) (fun _ _ _ => trivial)
  · obtain ⟨i, hpi, hi⟩ := mem_dataPages hp
    rw [h.toNat_page le_rfl] at hi
    exact ⟨i, hpi, by omega⟩
  · cases r with
    | some id => exact Ends.pure ht'
    | none => exact addOnNewPage_ends hv ht'

/-- A record that is updated was live; the new value is under the id that is returned. -/
theorem updateVal_ends (hv : v ≠ []) (h : IsFile c t ds) (p : PageId) (s : SlotId) :
    Ends handler (HeapFile.updateVal c p s v) t (fun id t' => ∃ ds', HasPages c t' ds' ∧
      FileMap.Step c (recordAt c ds) (.updateVal p s v) (.id id) (recordAt c ds')) (fun _ _ => True) := by
  unfold HeapFile.updateVal
  refine Ends.step (run_numPages h) ?_
  split_ifs with hge
  · exact Ends.fail trivial
  rcases h.page_cases hge with rfl | ⟨i, d, hp, hd, hw, he⟩
  · refine Ends.bind (getPageForWrite_ends h.header (fun _ => ?_) (fun _ => trivial))
    refine Ends.step (run_updateValue_blank h.tick.header s v) ?_
    have hhead : (t.tick.setPage ⟨c, 0⟩ (.blank 0)).page? ⟨c, 0⟩ = some (.blank 0) := by
      have hlen : ((t.tick.setPage ⟨c, 0⟩ (.blank 0)).pages c).length ≤ 2 ^ 32 := by
        rw [h.tick.setPages_eq, length_set, h.tick.length_pages]
        exact h.bound
      unfold page?
      dsimp only
      rw [position_eq hlen, h.tick.setPages_eq, h.tick.pages]
      rfl
    refine Ends.step (run_getValue_blank hhead s) ?_
    exact Ends.step (run_dropWriteGuard _ _) (Ends.fail trivial)
  · refine Ends.bind (getPageForWrite_ends (h.dataPage hp hd) (fun _ => ?_) (fun _ => trivial))
    have hrec : ∀ r, recordAt c ds (.newSlot c p r) = d.get r := fun r => by
      rw [recordAt_newSlot hp, hd, bind_some]
    cases hu : d.update s v with
    | mk r d' =>
      refine Ends.step (run_updateValue (h.tick.dataPage hp hd) hu) ?_
      cases r with
      | some u =>
        have ha := update_some hw hu
        obtain ⟨w, hlive⟩ := ha.live
        have hm := toMap_of_set hlive v ha.values
        rw [if_neg hv] at hm
        refine Ends.step (run_dropWriteGuard _ _) (Ends.pure ?_)
        refine ⟨_, h.tick.setPage hp ⟨ha.wf, update_exact he hv hu⟩, ?_⟩
        rw [recordAt_set hp hd hm]
        refine .updated ?_
        rw [hrec, hlive]
        exact some_ne_none w
      | none =>
        -- the page has no room: the value is deleted and added elsewhere
        obtain rfl := update_none hu
        have hset := h.tick.setDataPage hp ⟨hw, he⟩
        have hsame : ds.set i d' = ds := by
          obtain ⟨hlt, hget⟩ := List.getElem?_eq_some_iff.mp hd
          rw [← hget, set_getElem_self]
        rw [hsame] at hset
        refine Ends.step (run_getValue (hset.dataPage hp hd) s) ?_
        cases hg : d'.get s with
        | none => exact Ends.step (run_dropWriteGuard _ _) (Ends.fail trivial)
        | some w =>
          cases hdel : d'.delete s with
          | mk r d'' =>
            refine Ends.step (run_deleteValue (hset.dataPage hp hd) hdel) ?_
            refine Ends.step (run_dropWriteGuard _ _) ?_
            cases r with
            | none => exact Ends.fail trivial
            | some u =>
              have ha := delete_some hw hdel
              have hm := toMap_of_set hg [] ha.values
              rw [if_pos rfl] at hm
              have hfile := hset.setDataPage hp ⟨ha.wf, delete_exact he hdel⟩
              refine (addVal_ends hv hfile).mono ?_ (fun _ _ _ => trivial)
              rintro id t' ⟨ds', ht', hfree, hnew⟩
              rw [recordAt_set hp hd hm] at hfree hnew
              refine ⟨ds', ht', ?_⟩
              rw [hnew]
              refine .moved ?_ hfree
              rw [hrec, hg]
              exact some_ne_none w

/-- A call on a file is a call on its map. -/
theorem prog_ends (h : IsFile c t ds) {op : FileOp} (hop : op.NonEmpty) :
    Ends handler (op.prog c) t (fun a t' => ∃ ds', HasPages c t' ds' ∧
      FileMap.Step c (recordAt c ds) op a (recordAt c ds')) (fun _ _ => True) := by
  cases op with
  | addVal v =>
    refine Ends.bind ((addVal_ends hop h).mono (fun id t' ht' => Ends.pure ?_) (fun _ _ _ => trivial))
    obtain ⟨ds', hfile, hfree, hrec⟩ := ht'
    exact ⟨ds', hfile, hrec ▸ .added hfree⟩
  | getVal p s =>
    refine Ends.bind ((getVal_ends h p s).mono (fun v t' ht' => Ends.pure ?_) (fun _ _ _ => trivial))
    exact ⟨ds, ht'.1.toHasPages, .got ht'.2⟩
  | updateVal p s v =>
    exact Ends.bind ((updateVal_ends hop h p s).mono (fun id t' ht' => Ends.pure ht')
      (fun _ _ _ => trivial))
  | deleteVal p s =>
    refine Ends.bind ((deleteVal_ends h p s).mono (fun _ t' ht' => Ends.pure ?_)
      (fun _ _ _ => trivial))
    obtain ⟨ds', hfile, hlive, hrec⟩ := ht'
    exact ⟨ds', hfile, hrec ▸ .deleted hlive⟩

end Calls

end CrustyDB
