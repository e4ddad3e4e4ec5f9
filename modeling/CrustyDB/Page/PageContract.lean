import CrustyDB.Page.HeapPageRefine
import CrustyDB.Lib.Extents

/-! # A heap page is a map from slots to values

Runs of page operations on a fresh heap page, and what holds along every one of them as long
as only non-empty values are stored.  `slotMap_of_run` is the contract: the page never panics
and behaves as a partial map from slot ids to byte strings, the iterator listing the map in slot
order.  `layout_of_run` is the state of the bytes behind it: values apart from each other and
above the free space pointer, and counters that account for every byte of the page. -/

namespace CrustyDB

open ByteBuffer Simulation List

/-! ### Operations and runs -/

/-- A call of a page operation. -/
inductive PageOp where
  | add (bytes : List UInt8)
  | update (slotId : SlotId) (bytes : List UInt8)
  | delete (slotId : SlotId)
  | get (slotId : SlotId)
deriving DecidableEq, Repr

/-- What a page operation returns. -/
inductive PageAnswer where
  | slot (s : Option SlotId)
  | done (u : Option Unit)
  | value (v : Option (List UInt8))
deriving DecidableEq, Repr

/-- The operation stores no empty value. -/
def PageOp.NonEmpty : PageOp → Prop
  | .add bytes => bytes ≠ []
  | .update _ bytes => bytes ≠ []
  | .delete _ => True
  | .get _ => True

instance (op : PageOp) : Decidable op.NonEmpty := by
  cases op <;> unfold PageOp.NonEmpty <;> infer_instance

namespace Page

/-- The test at the start of `addValue`: there is no room for the value. -/
def refuses (p : Page) (bytes : List UInt8) : Checked Bool := do
  let slotOffset ← p.findNextFreeSlot
  p.lacksRoom (decide (slotOffset ≥ (← p.getHeaderSize))) bytes

/-- The call stores no empty value: with an empty value, `add` meets a page without room and
`update` a slot without a value. -/
def Spares (p : Page) : PageOp → Prop
  | .add bytes => bytes = [] → p.refuses [] = .ok true
  | .update slotId bytes => bytes = [] → p.getValue slotId = .ok none
  | .delete _ => True
  | .get _ => True

/-- One call on a page. -/
def step (p : Page) : PageOp → Checked (PageAnswer × Page)
  | .add bytes => do
    let (s, p) ← p.addValue bytes
    pure (.slot s, p)
  | .update slotId bytes => do
    let (u, p) ← p.updateValue slotId bytes
    pure (.done u, p)
  | .delete slotId => do
    let (u, p) ← p.deleteValue slotId
    pure (.done u, p)
  | .get slotId => do
    let v ← p.getValue slotId
    pure (.value v, p)

/-- A sequence of calls, with their answers. -/
def run (p : Page) : List PageOp → Checked (List PageAnswer × Page)
  | [] => pure ([], p)
  | op :: ops => do
    let (a, p) ← p.step op
    let (as, p) ← p.run ops
    pure (a :: as, p)

/-- No call of the run stores an empty value. -/
def SparesRun (p : Page) : List PageOp → Prop
  | [] => True
  | op :: ops => p.Spares op ∧ ∀ a p', p.step op = .ok (a, p') → p'.SparesRun ops

theorem spares_of_nonEmpty (p : Page) {op : PageOp} (h : op.NonEmpty) : p.Spares op := by
  cases op with
  | add bytes => exact fun hb => absurd hb h
  | update s bytes => exact fun hb => absurd hb h
  | delete s => trivial
  | get s => trivial

theorem sparesRun_of_nonEmpty (p : Page) {ops : List PageOp} (h : ∀ op ∈ ops, op.NonEmpty) :
    p.SparesRun ops := by
  induction ops generalizing p with
  | nil => trivial
  | cons op ops ih =>
    exact ⟨p.spares_of_nonEmpty (h op mem_cons_self),
      fun _ p' _ => ih p' (fun op hop => h op (mem_cons_of_mem _ hop))⟩

/-- A run on a fresh page. -/
def runNew (pageId : PageId) (ops : List PageOp) : Checked (List PageAnswer × Page) := do
  let p ← (new pageId).initHeapPage
  p.run ops

end Page

/-! ### The map -/

/-- What a heap page stands for: the values by slot id. -/
abbrev SlotMap := SlotId → Option (List UInt8)

namespace SlotMap

/-- The calls on a slot map with the answers they may give. -/
inductive Step : SlotMap → PageOp → PageAnswer → SlotMap → Prop
  | added {m : SlotMap} {bytes : List UInt8} {s : SlotId} (free : m s = none)
      (lowest : ∀ t, t < s → m t ≠ none) :
      Step m (.add bytes) (.slot (some s)) (Function.update m s (some bytes))
  | noRoom {m : SlotMap} {bytes : List UInt8} : Step m (.add bytes) (.slot none) m
  | updated {m : SlotMap} {bytes : List UInt8} {s : SlotId} (live : m s ≠ none) :
      Step m (.update s bytes) (.done (some ())) (Function.update m s (some bytes))
  | notUpdated {m : SlotMap} {bytes : List UInt8} {s : SlotId} :
      Step m (.update s bytes) (.done none) m
  | deleted {m : SlotMap} {s : SlotId} (live : m s ≠ none) :
      Step m (.delete s) (.done (some ())) (Function.update m s none)
  | notDeleted {m : SlotMap} {s : SlotId} (free : m s = none) :
      Step m (.delete s) (.done none) m
  | got {m : SlotMap} {s : SlotId} : Step m (.get s) (.value (m s)) m

/-- A sequence of calls with their answers. -/
inductive Run : SlotMap → List PageOp → List PageAnswer → SlotMap → Prop
  | nil {m : SlotMap} : Run m [] [] m
  | cons {m m' m'' : SlotMap} {op : PageOp} {a : PageAnswer} {ops : List PageOp}
      {as : List PageAnswer} (h : Step m op a m') (hs : Run m' ops as m'') :
      Run m (op :: ops) (a :: as) m''

end SlotMap

namespace SlotDir

/-- The map a directory stands for. -/
def toMap (d : SlotDir) : SlotMap := d.get

variable {d : SlotDir} {s : SlotId}

theorem toMap_of_values {d' : SlotDir} {bytes : List UInt8} (hb : bytes ≠ [])
    (h : ∀ j, d'.values[j]? = if j = s.toNat then some bytes else d.values[j]?) :
    d'.toMap = Function.update d.toMap s (some bytes) := by
  funext t
  unfold toMap
  rw [get_eq, h]
  by_cases ht : t = s
  · subst ht
    rw [if_pos rfl, Function.update_self]
    exact if_neg hb
  · rw [if_neg (fun hn => ht (UInt16.toNat_inj.mp hn)), Function.update_of_ne ht, ← get_eq]

theorem toMap_of_set {d' : SlotDir} {v : List UInt8} (hlive : d.get s = some v) (bytes : List UInt8)
    (h : d'.values = d.values.set s.toNat bytes) :
    d'.toMap = Function.update d.toMap s (if bytes = [] then none else some bytes) := by
  obtain ⟨hlt, -⟩ := List.getElem?_eq_some_iff.mp (get_eq_some.mp hlive).1
  funext t
  unfold toMap
  rw [get_eq, h, getElem?_set]
  by_cases ht : t = s
  · subst ht
    rw [if_pos rfl, if_pos hlt, Function.update_self]
    rfl
  · rw [if_neg (fun hn => ht (UInt16.toNat_inj.mp hn.symm)), Function.update_of_ne ht, ← get_eq]

/-- One call on a directory. -/
def step (d : SlotDir) : PageOp → Checked (PageAnswer × SlotDir)
  | .add bytes => do
    let (s, d) ← d.add bytes
    pure (.slot s, d)
  | .update slotId bytes => .ok ((d.update slotId bytes).map PageAnswer.done id)
  | .delete slotId => .ok ((d.delete slotId).map PageAnswer.done id)
  | .get slotId => .ok (.value (d.get slotId), d)

theorem firstFree_lowest {t : SlotId} (hs : s.toNat = d.firstFree) (ht : t < s) :
    d.toMap t ≠ none := by
  have hlt : t.toNat < d.firstFree := by
    rw [← hs]
    exact UInt16.lt_iff_toNat_lt.mp ht
  have hlen : t.toNat < d.values.length := by
    have := d.firstFree_le
    rw [values_length]
    omega
  have hv := ne_nil_of_lt_firstFree hlt (getElem?_eq_getElem hlen)
  unfold toMap
  rw [get_eq, getElem?_eq_getElem hlen, Option.bind_some, if_neg hv]
  exact Option.some_ne_none _

theorem firstFree_free (hs : s.toNat = d.firstFree) : d.toMap s = none := by
  unfold toMap
  rw [get_eq, hs]
  by_cases h : d.firstFree = d.slots.length
  · rw [getElem?_eq_none (by rw [values_length]; omega)]
    rfl
  · rw [firstFree_getElem? h]
    rfl

/-- The call stores no empty value in the directory. -/
def Spares (d : SlotDir) : PageOp → Prop
  | .add bytes => bytes = [] → ¬ d.Room []
  | .update slotId bytes => bytes = [] → d.get slotId = none
  | .delete _ => True
  | .get _ => True

/-- A call on a well-formed directory is a call on its map, and leaves it well-formed. -/
theorem step_spec (hw : d.WF) (he : d.Exact) {op : PageOp} (hop : d.Spares op) :
    ∃ a d', d.step op = .ok (a, d') ∧ d'.WF ∧ d'.Exact ∧ d.toMap.Step op a d'.toMap := by
  cases op with
  | add bytes =>
    obtain ⟨⟨r, d'⟩, hr⟩ := add_ok he bytes
    have hstep : d.step (.add bytes) = .ok (.slot r, d') := by
      rw [step, hr]
      rfl
    cases r with
    | none =>
      obtain ⟨-, rfl⟩ := add_none hr
      exact ⟨_, _, hstep, hw, he, .noRoom⟩
    | some s =>
      have ha := add_some hw hr
      have hb : bytes ≠ [] := fun hb => hop hb (hb ▸ ha.room)
      have hm := toMap_of_values hb (by rw [ha.slot]; exact ha.values)
      refine ⟨_, _, hstep, ha.wf, add_exact he hb hr, ?_⟩
      rw [hm]
      exact .added (firstFree_free ha.slot) (fun t ht => firstFree_lowest ha.slot ht)
  | update s bytes =>
    cases hu : d.update s bytes with
    | mk r d' =>
    have hstep : d.step (.update s bytes) = .ok (.done r, d') := by
      rw [step, hu]
      rfl
    cases r with
    | none =>
      obtain rfl := update_none hu
      exact ⟨_, _, hstep, hw, he, .notUpdated⟩
    | some u =>
      have ha := update_some hw hu
      obtain ⟨v, hv⟩ := ha.live
      have hb : bytes ≠ [] := fun hb => by
        rw [hop hb] at hv
        cases hv
      have hm := toMap_of_set hv bytes ha.values
      rw [if_neg hb] at hm
      refine ⟨_, _, hstep, ha.wf, update_exact he hb hu, ?_⟩
      rw [hm]
      exact .updated (by unfold toMap; rw [hv]; exact Option.some_ne_none _)
  | delete s =>
    cases hu : d.delete s with
    | mk r d' =>
    have hstep : d.step (.delete s) = .ok (.done r, d') := by
      rw [step, hu]
      rfl
    cases r with
    | none =>
      obtain ⟨hfree, rfl⟩ := delete_none hu
      exact ⟨_, _, hstep, hw, he, .notDeleted hfree⟩
    | some u =>
      have ha := delete_some hw hu
      obtain ⟨v, hv⟩ := ha.live
      have hm := toMap_of_set hv [] ha.values
      rw [if_pos rfl] at hm
      refine ⟨_, _, hstep, ha.wf, delete_exact he hu, ?_⟩
      rw [hm]
      exact .deleted (by unfold toMap; rw [hv]; exact Option.some_ne_none _)
  | get s => exact ⟨_, _, rfl, hw, he, .got⟩

/-! ### The iterator -/

theorem iterFrom_eq (slots : List Slot) (i : ℕ) :
    iterFrom slots i = (liveFrom slots i).map (fun iv => (iv.2, UInt16.ofNat iv.1)) := by
  induction slots generalizing i with
  | nil => rfl
  | cons s slots ih =>
    unfold iterFrom liveFrom
    split_ifs
    · exact ih (i + 1)
    · rw [map_cons, ih]

theorem liveFrom_pairwise (slots : List Slot) (k : ℕ) :
    (liveFrom slots k).Pairwise (fun a b => a.1 < b.1) := by
  induction slots generalizing k with
  | nil => exact List.Pairwise.nil
  | cons s slots ih =>
    unfold liveFrom
    split_ifs
    · exact ih (k + 1)
    · refine List.Pairwise.cons ?_ (ih (k + 1))
      rintro ⟨i, v⟩ hiv
      obtain ⟨j, -, hij, -⟩ := (mem_liveFrom _ _ _ _).mp hiv
      simp only
      omega

/-- The list holds the pairs of the map, in increasing slot order. -/
structure Lists (m : SlotMap) (l : List (List UInt8 × SlotId)) : Prop where
  sorted : l.Pairwise (fun a b => a.2 < b.2)
  mem : ∀ v s, (v, s) ∈ l ↔ m s = some v

theorem iter_lists (hw : d.WF) : Lists d.toMap d.iter := by
  have hidx : ∀ (i : ℕ) (v : List UInt8), (i, v) ∈ liveFrom d.slots 0 → (UInt16.ofNat i).toNat = i := by
    intro i v hiv
    obtain ⟨j, s, hij, hs, -⟩ := (mem_liveFrom _ _ _ _).mp hiv
    obtain ⟨hlt, -⟩ := List.getElem?_eq_some_iff.mp hs
    exact toNat_slotId hw (by omega)
  unfold iter
  rw [iterFrom_eq]
  constructor
  · rw [pairwise_map]
    refine (liveFrom_pairwise d.slots 0).imp_of_mem ?_
    rintro ⟨i, v⟩ ⟨j, w⟩ hi hj hij
    rw [UInt16.lt_iff_toNat_lt]
    simp only at hij ⊢
    rw [hidx i v hi, hidx j w hj]
    exact hij
  · intro v s
    rw [mem_map]
    show _ ↔ d.get s = some v
    rw [get_eq_some]
    constructor
    · rintro ⟨⟨i, w⟩, hiw, heq⟩
      cases heq
      rw [hidx i w hiw]
      obtain ⟨j, t, hij, ht, htv, hne⟩ := (mem_liveFrom _ _ _ _).mp hiw
      rw [Nat.zero_add] at hij
      subst hij
      exact ⟨htv ▸ values_getElem? ht, hne⟩
    · rintro ⟨hv, hne⟩
      obtain ⟨t, ht, htv⟩ := exists_slot_of_values hv
      refine ⟨(s.toNat, v), (mem_liveFrom _ _ _ _).mpr ⟨s.toNat, t, by omega, ht, htv, hne⟩, ?_⟩
      simp

end SlotDir

namespace Page

/-! ### Runs -/

variable {p : Page} {d : SlotDir}

theorem step_rep (h : Rep p d) (hw : d.WF) (op : PageOp) :
    Agree SameAnswer (p.step op) (d.step op) := by
  cases op with
  | add bytes =>
    rw [step, SlotDir.step]
    exact (addValue_rep h hw bytes).bind
      (fun a b hab => .pure ⟨congrArg PageAnswer.slot hab.1, hab.2⟩)
  | update s bytes =>
    rw [step, SlotDir.step]
    obtain ⟨⟨u, p'⟩, hrun, hu, hrep⟩ := (updateValue_rep h hw s bytes).ok_right
    rw [hrun]
    exact .ok ⟨congrArg PageAnswer.done hu, hrep⟩
  | delete s =>
    rw [step, SlotDir.step]
    obtain ⟨⟨u, p'⟩, hrun, hu, hrep⟩ := (deleteValue_rep h hw s).ok_right
    rw [hrun]
    exact .ok ⟨congrArg PageAnswer.done hu, hrep⟩
  | get s =>
    rw [step, SlotDir.step, getValue_rep h]
    exact .ok ⟨rfl, h⟩

theorem refuses_rep (h : Rep p d) (hw : d.WF) (bytes : List UInt8) :
    p.refuses bytes = .ok (decide (¬ d.Room bytes)) := by
  unfold refuses
  rw [findNextFreeSlot_rep h, getHeaderSize_rep h]
  simp only [checked_bind_ok, isNewSlot_iff]
  exact lacksRoom_rep h hw bytes

theorem spares_rep (h : Rep p d) (hw : d.WF) (op : PageOp) : p.Spares op ↔ d.Spares op := by
  cases op with
  | add bytes => simp [Spares, SlotDir.Spares, refuses_rep h hw]
  | update s bytes => simp [Spares, SlotDir.Spares, getValue_rep h]
  | delete s => rfl
  | get s => rfl

/-- A run never panics, and is a run of the map. -/
theorem run_spec (ops : List PageOp) (hops : p.SparesRun ops) (h : Rep p d) (hw : d.WF)
    (he : d.Exact) : ∃ as p' d', p.run ops = .ok (as, p') ∧ Rep p' d' ∧ d'.WF ∧ d'.Exact ∧
      d.toMap.Run ops as d'.toMap := by
  induction ops generalizing p d with
  | nil => exact ⟨[], p, d, rfl, h, hw, he, .nil⟩
  | cons op ops ih =>
    obtain ⟨a, d₁, hstep, hw₁, he₁, hmap⟩ :=
      SlotDir.step_spec hw he ((spares_rep h hw op).mp hops.1)
    have hagree := step_rep h hw op
    rw [hstep] at hagree
    obtain ⟨⟨a', p₁⟩, hrun₁, ha, h₁⟩ := hagree.ok_right
    simp only at ha h₁
    subst ha
    obtain ⟨as, p', d', hrun, hrep, hw', he', hmap'⟩ :=
      ih (hops.2 a' p₁ hrun₁) h₁ hw₁ he₁
    refine ⟨a' :: as, p', d', ?_, hrep, hw', he', .cons hmap hmap'⟩
    rw [run, hrun₁, checked_bind_ok]
    simp only [hrun, checked_bind_ok]
    rfl

theorem runNew_spec (pageId : PageId) (ops : List PageOp) (hops : ∀ op ∈ ops, op.NonEmpty) :
    ∃ as p d, runNew pageId ops = .ok (as, p) ∧ Rep p d ∧ d.WF ∧ d.Exact ∧
      SlotMap.Run (fun _ => none) ops as d.toMap := by
  obtain ⟨p₀, hinit, h₀⟩ := initHeapPage_new pageId
  obtain ⟨as, p, d, hrun, h⟩ := run_spec ops (sparesRun_of_nonEmpty p₀ hops) h₀
    (SlotDir.empty_wf pageId) (SlotDir.empty_exact pageId)
  refine ⟨as, p, d, ?_, h⟩
  rw [runNew, hinit]
  exact hrun

/-- A fresh page under any sequence of calls that stores no empty value: no call panics, the answers
are those of a map from slots to values, every lookup shows the map, and the iterator lists it. -/
theorem slotMap_of_run (pageId : PageId) (ops : List PageOp) (hops : ∀ op ∈ ops, op.NonEmpty) :
    ∃ as p m l, runNew pageId ops = .ok (as, p) ∧ SlotMap.Run (fun _ => none) ops as m ∧
      (∀ s, p.getValue s = .ok (m s)) ∧ p.iter = .ok l ∧ SlotDir.Lists m l := by
  obtain ⟨as, p, d, hrun, hrep, hw, -, hmap⟩ := runNew_spec pageId ops hops
  exact ⟨as, p, d.toMap, d.iter, hrun, hmap, fun s => getValue_rep hrep s, iter_rep hrep hw,
    SlotDir.iter_lists hw⟩

theorem slotMap_of_run_reuse :
    (∀ op ∈ [PageOp.add [1], .add [2, 2], .delete 0, .add [3], .update 1 [4, 4, 4], .get 0],
      op.NonEmpty) ∧
    ∃ as p m l, runNew 7 [.add [1], .add [2, 2], .delete 0, .add [3], .update 1 [4, 4, 4], .get 0] =
        .ok (as, p) ∧
      SlotMap.Run (fun _ => none)
        [.add [1], .add [2, 2], .delete 0, .add [3], .update 1 [4, 4, 4], .get 0] as m ∧
      (∀ s, p.getValue s = .ok (m s)) ∧ p.iter = .ok l ∧ SlotDir.Lists m l :=
  ⟨by decide, slotMap_of_run 7 _ (by decide)⟩

/-! ### The layout of the bytes -/

/-- Offset and length of the `n` slots from `i` on, as the slot metadata has them. -/
def slotExtents (p : Page) : ℕ → ℕ → Checked (List (ℕ × ℕ))
  | 0, _ => pure []
  | n + 1, i => do
    let offset ← p.readU16 (headerStart + i * slotMetadataSize)
    let length ← p.readU16 (headerStart + i * slotMetadataSize + offsetNumBytes)
    let rest ← slotExtents p n (i + 1)
    pure ((offset, length) :: rest)

/-- The extents of the slots lie apart from each other between the free space pointer and the end
of the page. -/
structure Placed (p : Page) (extents : List (ℕ × ℕ)) (fsp : ℕ) : Prop where
  getNumSlots : p.getNumSlots = .ok extents.length
  slotExtents : p.slotExtents extents.length 0 = .ok extents
  getFreeSpacePtr : p.getFreeSpacePtr = .ok fsp
  getHeaderSize : ∃ h, p.getHeaderSize = .ok h ∧ h ≤ fsp
  fsp_le : fsp ≤ pageSize
  inside : ∀ e ∈ extents, e.2 ≠ 0 → fsp ≤ e.1 ∧ e.1 + e.2 ≤ pageSize
  apart : extents.Pairwise Extents.Apart

/-- The layout of a heap page with the given counters and slot extents. -/
structure Layout (p : Page) (extents : List (ℕ × ℕ)) (fsp deletedBytes deletedSlots : ℕ) :
    Prop where
  getNumSlots : p.getNumSlots = .ok extents.length
  slotExtents : p.slotExtents extents.length 0 = .ok extents
  getFreeSpacePtr : p.getFreeSpacePtr = .ok fsp
  getDeletedBytes : p.getDeletedBytes = .ok deletedBytes
  getDeletedSlotCount : p.getDeletedSlotCount = .ok deletedSlots
  inside : ∀ e ∈ extents, e.2 ≠ 0 → fsp ≤ e.1 ∧ e.1 + e.2 ≤ pageSize
  disjoint : extents.Pairwise (fun e f => e.2 ≠ 0 → f.2 ≠ 0 → e.1 + e.2 ≤ f.1 ∨ f.1 + f.2 ≤ e.1)
  getHeaderSize : ∃ h, p.getHeaderSize = .ok h ∧ h ≤ fsp
  fsp_le : fsp ≤ pageSize
  account : pageSize - fsp = (extents.map Prod.snd).sum + deletedBytes
  deletedSlots_eq : deletedSlots = extents.countP (fun e => e.2 == 0)
  getFreeSpace : p.getFreeSpace =
    .ok (pageSize - headerStart - slotMetadataSize * extents.length - (extents.map Prod.snd).sum)

/-- The extents of a directory; a slot without a value keeps the offset found in the page. -/
def extentsOf (p : Page) : List Slot → ℕ → List (ℕ × ℕ)
  | [], _ => []
  | s :: slots, i => (p.cell (4 + 2 * i), s.value.length) :: extentsOf p slots (i + 1)

theorem extentsOf_length (p : Page) (slots : List Slot) (i : ℕ) :
    (extentsOf p slots i).length = slots.length := by
  induction slots generalizing i with
  | nil => rfl
  | cons s slots ih => rw [extentsOf, length_cons, ih, length_cons]

theorem extentsOf_snd (p : Page) (slots : List Slot) (i : ℕ) :
    (extentsOf p slots i).map Prod.snd = (slots.map Slot.value).map List.length := by
  induction slots generalizing i with
  | nil => rfl
  | cons s slots ih => rw [extentsOf, map_cons, ih, map_cons, map_cons]

theorem extentsOf_getElem? (p : Page) (slots : List Slot) (i j : ℕ) :
    (extentsOf p slots i)[j]? =
      (slots[j]?).map (fun s => (p.cell (4 + 2 * (i + j)), s.value.length)) := by
  induction slots generalizing i j with
  | nil => rfl
  | cons s slots ih =>
    cases j with
    | zero => rfl
    | succ j =>
      rw [extentsOf, getElem?_cons_succ, getElem?_cons_succ, ih]
      rw [Nat.add_right_comm, Nat.add_assoc]

theorem slotExtents_rep (h : Rep p d) (slots : List Slot) {i : ℕ} (hs : d.slots.drop i = slots) :
    p.slotExtents slots.length i = .ok (extentsOf p slots i) := by
  induction slots generalizing i with
  | nil => rfl
  | cons s slots ih =>
    obtain ⟨hget, hdrop⟩ := getElem?_of_drop hs
    rw [length_cons, slotExtents, readOffset_rep h hget, readLength_rep h hget, ih hdrop]
    rfl

/-- Slots that are in place in the directory are in place in the bytes. -/
theorem placed_of_rep (h : Rep p d) (hhdr : d.headerSize ≤ d.fsp) (hfsp : d.fsp ≤ pageSize)
    (hp : SlotDir.Packed [] d.fsp d.slots) : Placed p (extentsOf p d.slots 0) d.fsp := by
  have hlen := extentsOf_length p d.slots 0
  -- a non-empty extent is that of a live slot
  have hext : ∀ (j : ℕ) (e : ℕ × ℕ), (extentsOf p d.slots 0)[j]? = some e → e.2 ≠ 0 →
      ∃ s, d.slots[j]? = some s ∧ s.value ≠ [] ∧ e = (s.offset, s.value.length) := by
    intro j e hj hne
    rw [extentsOf_getElem?, Nat.zero_add, Option.map_eq_some_iff] at hj
    obtain ⟨s, hs, rfl⟩ := hj
    have hv : s.value ≠ [] := fun hv => hne (by rw [hv]; rfl)
    exact ⟨s, hs, hv, by rw [h.offset j s not_mem_nil hs hv]⟩
  refine ⟨?_, ?_, ?_, ⟨d.headerSize, getHeaderSize_rep h, hhdr⟩, hfsp, ?_, ?_⟩
  · rw [getNumSlots_eq, h.numSlots, hlen]
  · rw [hlen]
    exact slotExtents_rep h d.slots rfl
  · rw [getFreeSpacePtr_eq, h.fsp]
  · intro e hmem hne
    obtain ⟨j, hj⟩ := mem_iff_getElem?.mp hmem
    obtain ⟨s, hs, hv, rfl⟩ := hext j e hj hne
    exact hp.inside j s not_mem_nil hs hv
  · rw [pairwise_iff_getElem]
    intro i j hi hj hij hei hej
    obtain ⟨s, hs, hv, hes⟩ := hext i _ (getElem?_eq_getElem hi) hei
    obtain ⟨t, ht, hw', het⟩ := hext j _ (getElem?_eq_getElem hj) hej
    rw [hes, het]
    rcases hp.apart i j s t not_mem_nil not_mem_nil (by omega) hs ht with h1 | h1 | h1 | h1
    · exact absurd h1 hv
    · exact absurd h1 hw'
    · exact Or.inl h1
    · exact Or.inr h1

/-- The bytes of a well-formed directory have its layout. -/
theorem layout_of_rep (h : Rep p d) (hw : d.WF) (he : d.Exact) :
    Layout p (extentsOf p d.slots 0) d.fsp d.deletedBytes d.deletedSlots := by
  have hlen := extentsOf_length p d.slots 0
  have hsum : ((extentsOf p d.slots 0).map Prod.snd).sum = d.liveBytes := by
    rw [extentsOf_snd]
    rfl
  have hacc := hw.account
  have hhdr := hw.header_le
  have hplaced := placed_of_rep h hhdr hw.fsp_le hw.packed
  refine ⟨hplaced.getNumSlots, hplaced.slotExtents, hplaced.getFreeSpacePtr, ?_, ?_,
    hplaced.inside, hplaced.apart, hplaced.getHeaderSize, hw.fsp_le, ?_, ?_, ?_⟩
  · rw [getDeletedBytes_eq, h.deletedBytes]
  · rw [getDeletedSlotCount_eq, h.deletedSlots]
  · rw [hsum]
    omega
  · have hcount : ∀ (slots : List Slot) (i : ℕ), (extentsOf p slots i).countP (fun e => e.2 == 0) =
        (slots.map Slot.value).countP (fun v => v.isEmpty) := by
      intro slots
      induction slots with
      | nil => intro i; rfl
      | cons s slots ih =>
        intro i
        rw [extentsOf, countP_cons, map_cons, countP_cons, ih]
        cases s.value <;> rfl
    rw [hcount]
    exact he
  · rw [getFreeSpace_rep h hhdr, hsum, hlen]
    unfold SlotDir.freeSpace SlotDir.gap SlotDir.headerSize at *
    rw [Nat.mul_comm slotMetadataSize]
    congr 1
    omega

/-- A fresh page under any sequence of calls that stores no empty value: no call underflows a
subtraction or leaves the page, and the page it ends in has the layout of a heap page. -/
theorem layout_of_run (pageId : PageId) (ops : List PageOp) (hops : ∀ op ∈ ops, op.NonEmpty) :
    ∃ as p extents fsp deletedBytes deletedSlots, runNew pageId ops = .ok (as, p) ∧
      Layout p extents fsp deletedBytes deletedSlots := by
  obtain ⟨as, p, d, hrun, hrep, hw, he, -⟩ := runNew_spec pageId ops hops
  exact ⟨as, p, _, _, _, _, hrun, layout_of_rep hrep hw he⟩

theorem layout_of_run_move :
    (∀ op ∈ [PageOp.add [1, 1], .add [2], .update 0 [3, 3, 3], .delete 1], op.NonEmpty) ∧
    ∃ as p extents fsp deletedBytes deletedSlots,
      runNew 7 [.add [1, 1], .add [2], .update 0 [3, 3, 3], .delete 1] = .ok (as, p) ∧
      Layout p extents fsp deletedBytes deletedSlots :=
  ⟨by decide, layout_of_run 7 _ (by decide)⟩

end Page

end CrustyDB
