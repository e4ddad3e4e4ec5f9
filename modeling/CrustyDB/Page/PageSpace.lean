import CrustyDB.Page.PageContract

/-! # The space of a heap page

Three questions about the bytes of a heap page.  What becomes of the empty value: the length zero
marks a deleted slot, so the page stays a map from slots to values exactly as long as no empty value
is stored (`follows_iff_sparesRun`).  When there is room for a value: `roomy_of_run`.  What the
compaction does: the values stay, and the space between the free space pointer and the end of the page
is filled without a gap (`compactPage_packs`). -/

namespace CrustyDB

open ByteBuffer Simulation List SlotDir

/-! ### Empty values -/

/-- A call with its answer leads to one map. -/
theorem SlotMap.Step.unique {m m₁ m₂ : SlotMap} {op : PageOp} {a : PageAnswer}
    (h₁ : SlotMap.Step m op a m₁) (h₂ : SlotMap.Step m op a m₂) : m₁ = m₂ := by
  cases h₁ <;> cases h₂ <;> rfl

namespace SlotDir

/-- The slots that show no value are those of length zero. -/
theorem countP_get {d : SlotDir} (hw : d.WF) :
    (List.range d.slots.length).countP (fun i => (d.get (UInt16.ofNat i)).isNone) = d.zeroSlots := by
  have hvalues : d.values = (List.range d.slots.length).map (fun i => d.values.getD i []) := by
    apply ext_getElem
    · simp [values_length]
    · intro i hi hi'
      simp [hi]
  unfold zeroSlots
  rw [hvalues, countP_map]
  refine countP_congr (fun i hi => ?_)
  have hlt : i < d.values.length := by
    rw [values_length]
    exact mem_range.mp hi
  rw [get_eq, toNat_slotId hw (mem_range.mp hi).le, getElem?_eq_getElem hlt]
  cases hv : d.values[i] with
  | nil => simp [hv, hlt]
  | cons b v => simp [hv, hlt]

end SlotDir

namespace Page

/-- The lookups show the map, and the counter of deleted slots counts the slots without a value. -/
structure Shows (p : Page) (m : SlotMap) : Prop where
  getValue : ∀ s, p.getValue s = .ok (m s)
  deletedSlots : ∃ n, p.getNumSlots = .ok n ∧
    p.getDeletedSlotCount = .ok ((List.range n).countP (fun i => (m (UInt16.ofNat i)).isNone))

/-- The page answers as the map does, whether or not the values are empty: after each of the calls no
panic has happened, the answers are those of the map, and the page shows the map. -/
def Follows (p : Page) (m : SlotMap) (ops : List PageOp) : Prop :=
  ∀ before, before <+: ops →
    ∃ as p' m', p.run before = .ok (as, p') ∧ m.Run before as m' ∧ p'.Shows m'

variable {p : Page} {d : SlotDir}

theorem shows_of_rep (h : Rep p d) (hw : d.WF) (he : d.Exact) : p.Shows d.toMap := by
  refine ⟨getValue_rep h, d.slots.length, by rw [getNumSlots_eq, h.numSlots], ?_⟩
  rw [getDeletedSlotCount_eq, h.deletedSlots, he, ← countP_get hw]
  rfl

theorem run_cons_ok {q : Page} {op : PageOp} {ops : List PageOp} {as : List PageAnswer}
    (h : p.run (op :: ops) = .ok (as, q)) :
    ∃ a p' as', p.step op = .ok (a, p') ∧ p'.run ops = .ok (as', q) ∧ as = a :: as' := by
  rw [run] at h
  obtain ⟨⟨a, p'⟩, hstep, h⟩ := bind_eq_ok.mp h
  obtain ⟨⟨as', q'⟩, hrun, h⟩ := bind_eq_ok.mp h
  obtain ⟨rfl, rfl⟩ := Prod.mk.inj (Except.ok.inj h)
  exact ⟨a, p', as', hstep, hrun, rfl⟩

theorem SparesRun.of_append {ops more : List PageOp} (h : p.SparesRun (ops ++ more)) :
    p.SparesRun ops := by
  induction ops generalizing p with
  | nil => trivial
  | cons op ops ih => exact ⟨h.1, fun a p' hp => ih (h.2 a p' hp)⟩

/-- An empty value that is stored is not shown. -/
theorem spares_of_shows {p' : Page} {m' : SlotMap} {op : PageOp} {a : PageAnswer} (h : Rep p d)
    (hw : d.WF) (hstep : p.step op = .ok (a, p')) (hmap : d.toMap.Step op a m')
    (hshow : p'.Shows m') : p.Spares op := by
  have hagree := step_rep h hw op
  rw [hstep] at hagree
  obtain ⟨⟨a', d'⟩, hd, ha, h'⟩ := hagree.ok_left
  simp only at ha h'
  subst ha
  rw [spares_rep h hw]
  -- what the page shows in a slot is what the map has there
  have hget : ∀ s, d'.get s = m' s := fun s => by
    have := hshow.getValue s
    rw [getValue_rep h'] at this
    exact Except.ok.inj this
  cases op with
  | add bytes =>
    rintro rfl hroom
    rw [SlotDir.step] at hd
    obtain ⟨⟨r, d₁⟩, hadd, hd⟩ := bind_eq_ok.mp hd
    obtain ⟨rfl, rfl⟩ := Prod.mk.inj (Except.ok.inj hd)
    cases r with
    | none => exact (add_none hadd).1 hroom
    | some s =>
      have hadded := add_some hw hadd
      have hs := hget s
      cases hmap
      rw [Function.update_self, get_eq, hadded.values, if_pos hadded.slot] at hs
      cases hs
  | update s bytes =>
    rintro rfl
    by_contra hlive
    cases hu : d.update s [] with
    | mk r d₁ =>
    rw [SlotDir.step, hu] at hd
    obtain ⟨rfl, rfl⟩ := Prod.mk.inj (Except.ok.inj hd)
    have hs := hget s
    cases r with
    | none =>
      have hslot : d.slots[s.toNat]? ≠ none := fun hn => hlive (by rw [SlotDir.get, hn])
      obtain ⟨t, ht⟩ := Option.ne_none_iff_exists'.mp hslot
      have hv : t.value ≠ [] := fun hv => hlive (by simp [SlotDir.get, ht, hv])
      simp [SlotDir.update, ht, hv] at hu
    | some u =>
      have hupd := update_some hw hu
      obtain ⟨v, hv⟩ := hupd.live
      have hm := toMap_of_set hv [] hupd.values
      have hnone : d₁.get s = none := by
        change d₁.toMap s = none
        rw [hm, Function.update_self, if_pos rfl]
      cases hmap
      rw [Function.update_self] at hs
      exact absurd (hnone.symm.trans hs) (by simp)
  | delete s => trivial
  | get s => trivial

/-- Every call of a run that follows the map stores no empty value. -/
theorem sparesRun_of_follows (ops : List PageOp) (h : Rep p d) (hw : d.WF) (he : d.Exact)
    (hf : p.Follows d.toMap ops) : p.SparesRun ops := by
  induction ops generalizing p d with
  | nil => trivial
  | cons op ops ih =>
    -- the first call alone
    obtain ⟨as, p₁, m₁, hrun, hmap, hshow⟩ := hf [op] (by simp)
    obtain ⟨a, p₂, as', hstep, hrest, rfl⟩ := run_cons_ok hrun
    rw [run] at hrest
    obtain ⟨rfl, rfl⟩ := Prod.mk.inj (Except.ok.inj hrest)
    have hmap' : d.toMap.Step op a m₁ := by
      cases hmap with
      | cons hs hn =>
        cases hn
        exact hs
    have hspare := spares_of_shows h hw hstep hmap' hshow
    refine ⟨hspare, fun a' p' hstep' => ?_⟩
    rw [hstep] at hstep'
    obtain ⟨rfl, rfl⟩ := Prod.mk.inj (Except.ok.inj hstep')
    obtain ⟨b, d', hd, hw', he', hmap''⟩ :=
      step_spec hw he ((spares_rep h hw op).mp hspare)
    have hagree := step_rep h hw op
    rw [hstep, hd] at hagree
    obtain ⟨⟨b', d''⟩, hd', hb, h'⟩ := hagree.ok_left
    obtain ⟨rfl, rfl⟩ := Prod.mk.inj (Except.ok.inj hd')
    simp only at hb h'
    subst hb
    refine ih h' hw' he' (fun before hbefore => ?_)
    obtain ⟨as, q, m, hrun, hmap, hshow⟩ :=
      hf (op :: before) (cons_prefix_cons.mpr ⟨rfl, hbefore⟩)
    obtain ⟨c, p₃, as', hstep₃, hrest, rfl⟩ := run_cons_ok hrun
    rw [hstep] at hstep₃
    obtain ⟨rfl, rfl⟩ := Prod.mk.inj (Except.ok.inj hstep₃)
    cases hmap with
    | cons hs hn =>
      rw [hs.unique hmap''] at hn
      exact ⟨as', q, m, hrest, hn, hshow⟩

/-- A fresh page under any sequence of calls, also with empty values: it behaves as a map in which a
slot may hold the empty value, and counts its deleted slots, exactly if no call stores an empty
value. -/
theorem follows_iff_sparesRun (pageId : PageId) (ops : List PageOp) :
    ∃ p, (new pageId).initHeapPage = .ok p ∧
      (p.Follows (fun _ => none) ops ↔ p.SparesRun ops) := by
  obtain ⟨p, hinit, h⟩ := initHeapPage_new pageId
  have hw := SlotDir.empty_wf pageId
  have he := SlotDir.empty_exact pageId
  refine ⟨p, hinit, sparesRun_of_follows ops h hw he, fun hspare before hbefore => ?_⟩
  obtain ⟨more, rfl⟩ := hbefore
  obtain ⟨as, p', d', hrun, h', hw', he', hmap⟩ := run_spec before hspare.of_append h hw he
  exact ⟨as, p', d'.toMap, hrun, hmap, shows_of_rep h' hw' he'⟩

/-- On a fresh page, `add_value([])` returns slot 0, which then holds no value, and the next
`add_value` panics. -/
theorem add_empty_lost :
    (∃ p, runNew 7 [.add [], .get 0] = .ok ([.slot (some 0), .value none], p)) ∧
      runNew 7 [.add [], .add [5]] = .error .overflow := by
  obtain ⟨p, hinit, h⟩ := initHeapPage_new 7
  have hw := SlotDir.empty_wf 7
  have hd : (SlotDir.empty 7).step (.add []) =
      .ok (.slot (some 0), ⟨7, [⟨pageSize, []⟩], pageSize, 0, 0⟩) := by decide
  have hagree := step_rep h hw (.add [])
  rw [hd] at hagree
  obtain ⟨⟨a, p₁⟩, hstep, ha, h₁⟩ := hagree.ok_right
  simp only at ha h₁
  subst ha
  have hadd : (SlotDir.empty 7).add [] =
      .ok (some 0, ⟨7, [⟨pageSize, []⟩], pageSize, 0, 0⟩) := by decide
  have hw₁ := (SlotDir.add_some hw hadd).wf
  constructor
  · refine ⟨p₁, ?_⟩
    have hget : p₁.step (.get 0) = .ok (.value none, p₁) := by
      rw [step, getValue_rep h₁]
      rfl
    rw [runNew, hinit, checked_bind_ok, run, hstep, checked_bind_ok]
    simp only [run, hget, checked_bind_ok]
    rfl
  · have hagree₂ := step_rep h₁ hw₁ (.add [5])
    have hd₂ : SlotDir.step ⟨7, [⟨pageSize, []⟩], pageSize, 0, 0⟩ (.add [5]) =
        .error .overflow := by decide
    rw [hd₂] at hagree₂
    have hpanic : p₁.step (.add [5]) = .error .overflow := by
      cases hstep₂ : p₁.step (.add [5]) with
      | error e =>
        rw [hstep₂] at hagree₂
        cases hagree₂
        rfl
      | ok r =>
        rw [hstep₂] at hagree₂
        cases hagree₂
    rw [runNew, hinit, checked_bind_ok, run, hstep, checked_bind_ok]
    simp only [run, hpanic]
    rfl

/-! ### Room for a value -/

/-- The page has a slot without a value. -/
def HasDeletedSlot (p : Page) : Prop :=
  ∃ n s, p.getNumSlots = .ok n ∧ s < n ∧ p.getValue (UInt16.ofNat s) = .ok none

/-- Between the slot metadata and the free space pointer there is room for the metadata of a slot. -/
def MetadataFits (p : Page) : Prop :=
  ∃ h fsp, p.getHeaderSize = .ok h ∧ p.getFreeSpacePtr = .ok fsp ∧ h + slotMetadataSize ≤ fsp

theorem hasDeletedSlot_rep (h : Rep p d) (hw : d.WF) :
    p.HasDeletedSlot ↔ d.firstFree ≠ d.slots.length := by
  constructor
  · rintro ⟨n, s, hn, hs, hget⟩ hfull
    rw [getNumSlots_eq, h.numSlots] at hn
    cases hn
    have hlt : s < d.values.length := by
      rw [values_length]
      exact hs
    have hne := ne_nil_of_lt_firstFree (hfull ▸ hs) (getElem?_eq_getElem hlt)
    rw [getValue_rep h, get_eq, toNat_slotId hw hs.le,
      getElem?_eq_getElem hlt, Option.bind_some, if_neg hne] at hget
    cases hget
  · intro hfree
    have hle := d.firstFree_le
    refine ⟨d.slots.length, d.firstFree, by rw [getNumSlots_eq, h.numSlots], by omega, ?_⟩
    rw [getValue_rep h]
    exact congrArg _ (firstFree_free (toNat_slotId hw hle))

theorem addValue_of_room (h : Rep p d) (hw : d.WF) (he : d.Exact) {bytes : List UInt8}
    (hroom : d.Room bytes) : ∃ s p', p.addValue bytes = .ok (some s, p') := by
  obtain ⟨⟨r, d'⟩, hadd⟩ := add_ok he bytes
  have hagree := addValue_rep h hw bytes
  rw [hadd] at hagree
  obtain ⟨⟨r', p'⟩, hp, hr, -⟩ := hagree.ok_right
  simp only at hr
  subst hr
  cases r' with
  | none => exact absurd hroom (add_none hadd).1
  | some s => exact ⟨s, p', hp⟩

/-- On every page that is reached without an empty value, a value that leaves a byte of the free space
is added, if there is a deleted slot to take or room for the metadata of a new one; and a live slot is
updated with a value that is not longer or that leaves a byte free. -/
theorem roomy_of_run (pageId : PageId) (ops : List PageOp) (hops : ∀ op ∈ ops, op.NonEmpty) :
    ∃ as p free, runNew pageId ops = .ok (as, p) ∧ p.getFreeSpace = .ok free ∧
      (∀ bytes, p.HasDeletedSlot → bytes.length < free →
        ∃ s p', p.addValue bytes = .ok (some s, p')) ∧
      (∀ bytes, ¬ p.HasDeletedSlot → p.MetadataFits → bytes.length + slotMetadataSize < free →
        ∃ s p', p.addValue bytes = .ok (some s, p')) ∧
      (∀ s old bytes, p.getValue s = .ok (some old) →
        bytes.length ≤ old.length ∨ bytes.length < free + old.length →
        ∃ p', p.updateValue s bytes = .ok (some (), p')) := by
  obtain ⟨as, p, d, hrun, h, hw, he, -⟩ := runNew_spec pageId ops hops
  refine ⟨as, p, d.freeSpace, hrun, getFreeSpace_rep h hw.header_le, ?_, ?_, ?_⟩
  · intro bytes hdel hlen
    refine addValue_of_room h hw he ?_
    rw [SlotDir.Room, if_neg ((hasDeletedSlot_rep h hw).mp hdel)]
    exact hlen
  · rintro bytes hdel ⟨hdr, fsp, hhdr, hfsp, hgap⟩ hlen
    rw [getHeaderSize_rep h] at hhdr
    rw [getFreeSpacePtr_eq, h.fsp] at hfsp
    cases hhdr
    cases hfsp
    refine addValue_of_room h hw he ?_
    rw [SlotDir.Room, if_pos (not_not.mp (mt (hasDeletedSlot_rep h hw).mpr hdel))]
    exact ⟨by unfold SlotDir.gap; omega, hlen⟩
  · intro s old bytes hget hlen
    rw [getValue_rep h] at hget
    obtain ⟨hval, hne⟩ := SlotDir.get_eq_some.mp (Except.ok.inj hget)
    obtain ⟨t, ht, rfl⟩ := SlotDir.exists_slot_of_values hval
    have hupd : ∃ d', d.update s bytes = (some (), d') := by
      unfold SlotDir.update
      simp only [ht, if_neg hne]
      split_ifs with h1 h2
      · exact ⟨_, rfl⟩
      · omega
      · exact ⟨_, rfl⟩
    obtain ⟨d', hd'⟩ := hupd
    have hagree := updateValue_rep h hw s bytes
    rw [hd'] at hagree
    obtain ⟨⟨u, p'⟩, hp, hu, -⟩ := hagree.ok_right
    simp only at hu
    exact ⟨p', by rw [hp, hu]⟩

/-- A page with one slot and a hole: the third call finds a deleted slot and room in the hole. -/
theorem roomy_of_run_hole :
    (∀ op ∈ [PageOp.add [1, 2, 3], .add [4], .delete 0], op.NonEmpty) ∧
    ∃ as p free, runNew 7 [.add [1, 2, 3], .add [4], .delete 0] = .ok (as, p) ∧
      p.getFreeSpace = .ok free ∧
      (∀ bytes, p.HasDeletedSlot → bytes.length < free →
        ∃ s p', p.addValue bytes = .ok (some s, p')) ∧
      (∀ bytes, ¬ p.HasDeletedSlot → p.MetadataFits → bytes.length + slotMetadataSize < free →
        ∃ s p', p.addValue bytes = .ok (some s, p')) ∧
      (∀ s old bytes, p.getValue s = .ok (some old) →
        bytes.length ≤ old.length ∨ bytes.length < free + old.length →
        ∃ p', p.updateValue s bytes = .ok (some (), p')) :=
  ⟨by decide, roomy_of_run 7 _ (by decide)⟩

/-- The directory after a value of 4067 bytes was added and cut to one byte. -/
theorem step_fragmented (big : List UInt8) (hbig : big.length = 4067) :
    (SlotDir.empty 7).step (.add big) = .ok (.slot (some 0), ⟨7, [⟨29, big⟩], 29, 0, 0⟩) ∧
    SlotDir.step ⟨7, [⟨29, big⟩], 29, 0, 0⟩ (.update 0 [1]) =
      .ok (.done (some ()), ⟨7, [⟨29, [1]⟩], 29, 4066, 0⟩) := by
  have hne : big ≠ [] := fun hb => by
    rw [hb] at hbig
    cases hbig
  constructor
  · simp [SlotDir.step, SlotDir.add, SlotDir.empty, SlotDir.firstFree, SlotDir.values, SlotDir.gap,
      SlotDir.freeSpace, SlotDir.headerSize, SlotDir.writeAt, SlotDir.grow, hbig, headerStart,
      pageFixedHeaderLen, heapPageFixedMetadataSize, slotMetadataSize, pageSize]
  · simp [SlotDir.step, SlotDir.update, hne, hbig]

/-- Four bytes for a slot do not fit between the metadata and the values although 4067 bytes are
free, so `add_value` refuses a value of one byte. -/
theorem add_refused_fragmented :
    ∃ as p p', runNew 7 [.add (List.replicate 4067 1), .update 0 [1]] = .ok (as, p) ∧
      p.getFreeSpace = .ok 4067 ∧ p.addValue [7] = .ok (none, p') := by
  obtain ⟨hadd, hupd⟩ := step_fragmented (List.replicate 4067 1) List.length_replicate
  have hbig : (PageOp.add (List.replicate 4067 1)).NonEmpty := by
    rw [PageOp.NonEmpty, Ne, List.replicate_eq_nil_iff]
    decide
  obtain ⟨p, hinit, h⟩ := initHeapPage_new 7
  have hw := SlotDir.empty_wf 7
  have he := SlotDir.empty_exact 7
  obtain ⟨a₁, d₁, hd₁, hw₁, he₁, -⟩ := SlotDir.step_spec hw he
    ((spares_rep h hw _).mp (p.spares_of_nonEmpty hbig))
  rw [hadd] at hd₁
  obtain ⟨rfl, rfl⟩ := Prod.mk.inj (Except.ok.inj hd₁)
  have hagree₁ := step_rep h hw (.add (List.replicate 4067 1))
  rw [hadd] at hagree₁
  obtain ⟨⟨a₁, p₁⟩, hstep₁, -, h₁⟩ := hagree₁.ok_right
  obtain ⟨a₂, d₂, hd₂, hw₂, -, -⟩ := SlotDir.step_spec hw₁ he₁
    ((spares_rep h₁ hw₁ (.update 0 [1])).mp (p₁.spares_of_nonEmpty (by decide)))
  rw [hupd] at hd₂
  obtain ⟨rfl, rfl⟩ := Prod.mk.inj (Except.ok.inj hd₂)
  have hagree₂ := step_rep h₁ hw₁ (.update 0 [1])
  rw [hupd] at hagree₂
  obtain ⟨⟨a₂, p₂⟩, hstep₂, -, h₂⟩ := hagree₂.ok_right
  have hagree₃ := addValue_rep h₂ hw₂ [7]
  rw [show SlotDir.add ⟨7, [⟨29, [1]⟩], 29, 4066, 0⟩ [7] =
    .ok (none, ⟨7, [⟨29, [1]⟩], 29, 4066, 0⟩) by decide] at hagree₃
  obtain ⟨⟨r, p₃⟩, hr, hnone, -⟩ := hagree₃.ok_right
  simp only at hnone
  subst hnone
  refine ⟨[a₁, a₂], p₂, p₃, ?_, getFreeSpace_rep h₂ (by decide), hr⟩
  rw [runNew, hinit, checked_bind_ok, run, hstep₁, checked_bind_ok]
  simp only [run, hstep₂, checked_bind_ok]
  rfl

/-! ### Compaction -/

/-- The directory that the slot metadata describes. -/
def readDir (p : Page) (extents : List (ℕ × ℕ)) : SlotDir where
  pageId := p.getPageId
  slots := extents.map (fun e => ⟨e.1, slice p.data e.1 (e.1 + e.2)⟩)
  fsp := p.cell 1
  deletedBytes := p.cell 2
  deletedSlots := p.cell 3

variable {extents : List (ℕ × ℕ)} {fsp : ℕ}

/-- The extents are the cells of the slot metadata. -/
theorem slotExtents_cells {n i : ℕ} (hfit : 2 * (i + n) + 4 ≤ maxCells)
    (h : p.slotExtents n i = .ok extents) :
    extents = (List.range n).map (fun j => (p.cell (4 + 2 * (i + j)), p.cell (5 + 2 * (i + j)))) := by
  induction n generalizing i extents with
  | zero => exact (Except.ok.inj h).symm
  | succ n ih =>
    have hoff : p.readU16 (headerStart + i * slotMetadataSize) = .ok (p.cell (4 + 2 * i)) :=
      readU16_cell (by omega) (by
        simp only [headerStart, heapPageFixedMetadataSize, slotMetadataSize]; omega)
    have hlen : p.readU16 (headerStart + i * slotMetadataSize + offsetNumBytes) =
        .ok (p.cell (5 + 2 * i)) :=
      readU16_cell (by omega) (by
        simp only [headerStart, heapPageFixedMetadataSize, slotMetadataSize, offsetNumBytes]; omega)
    rw [slotExtents, hoff, hlen] at h
    simp only [checked_bind_ok] at h
    obtain ⟨rest, hrest, h⟩ := bind_eq_ok.mp h
    cases h
    rw [ih (by omega) hrest, range_succ_eq_map, map_cons, map_map, Nat.add_zero]
    congr 1
    refine map_congr_left (fun j _ => ?_)
    simp only [Function.comp_apply, Nat.add_right_comm i 1 j, Nat.succ_eq_add_one, Nat.add_assoc]

/-- The header of a page whose extents are in place leaves room for the metadata. -/
theorem Placed.header (h : Placed p extents fsp) :
    headerStart + extents.length * slotMetadataSize ≤ fsp := by
  obtain ⟨hdr, hget, hle⟩ := h.getHeaderSize
  rw [Page.getHeaderSize, h.getNumSlots] at hget
  cases hget
  exact hle

theorem Placed.cells (h : Placed p extents fsp) {i : ℕ} {e : ℕ × ℕ} (hi : extents[i]? = some e) :
    e = (p.cell (4 + 2 * i), p.cell (5 + 2 * i)) := by
  have hhdr := h.header
  have hfsp := h.fsp_le
  simp only [headerStart, pageFixedHeaderLen, heapPageFixedMetadataSize, slotMetadataSize,
    pageSize] at hhdr hfsp
  obtain ⟨hlt, -⟩ := List.getElem?_eq_some_iff.mp hi
  rw [slotExtents_cells (by simp only [maxCells]; omega) h.slotExtents, getElem?_map,
    getElem?_range hlt] at hi
  simpa using hi.symm

theorem Placed.slice_length (h : Placed p extents fsp) {e : ℕ × ℕ} (he : e ∈ extents) :
    (slice p.data e.1 (e.1 + e.2)).length = e.2 := by
  rw [ByteBuffer.slice_length, p.size]
  by_cases hz : e.2 = 0
  · omega
  · have := h.inside e he hz
    omega

/-- The bytes spell the directory that the slot metadata describes. -/
theorem Placed.rep (h : Placed p extents fsp) : Rep p (p.readDir extents) := by
  have hhdr := h.header
  have hfsp := h.fsp_le
  have hsize : (p.readDir extents).headerSize = headerStart + extents.length * slotMetadataSize := by
    simp [SlotDir.headerSize, readDir]
  have hslot : ∀ (i : ℕ) (s : Slot), (p.readDir extents).slots[i]? = some s →
      ∃ e, extents[i]? = some e ∧ e ∈ extents ∧
        s = ⟨e.1, slice p.data e.1 (e.1 + e.2)⟩ := by
    intro i s hi
    obtain ⟨e, he, rfl⟩ := Option.map_eq_some_iff.mp ((getElem?_map ..).symm.trans hi)
    exact ⟨e, he, mem_of_getElem? he, rfl⟩
  have hnum := h.getNumSlots
  rw [getNumSlots_eq] at hnum
  refine ⟨rfl, ?_, rfl, rfl, rfl, by omega, ?_, ?_, ?_, ?_⟩
  · rw [Except.ok.inj hnum]
    simp [readDir]
  · intro i s hi
    obtain ⟨e, he, hmem, rfl⟩ := hslot i s hi
    rw [h.slice_length hmem, h.cells he]
  · intro i s _ hi hv
    obtain ⟨e, he, hmem, rfl⟩ := hslot i s hi
    have hlen := h.slice_length hmem
    have hin := h.inside e hmem (fun hz => hv (length_eq_zero_iff.mp (hlen.trans hz)))
    simp only [hlen]
    omega
  · intro i s _ hi _
    obtain ⟨e, he, hmem, rfl⟩ := hslot i s hi
    simp only [h.cells he]
  · intro i s _ hi _
    obtain ⟨e, he, hmem, rfl⟩ := hslot i s hi
    simp only [h.slice_length hmem]

theorem Placed.liveBytes (h : Placed p extents fsp) :
    (p.readDir extents).liveBytes = (extents.map Prod.snd).sum := by
  unfold SlotDir.liveBytes SlotDir.values readDir
  simp only [map_map]
  congr 1
  exact map_congr_left (fun e he => h.slice_length he)

/-- Compaction of a page whose values lie apart from each other above the free space pointer: it does
not panic, no slot changes its value, and afterwards the values fill the bytes from the free space
pointer to the end of the page and no byte counts as deleted.  The free space is as before exactly if
the bytes of the data area were accounted for, as they are on every page that is reached
(`layout_of_run`). -/
theorem compactPage_packs {p : Page} {extents : List (ℕ × ℕ)} {fsp : ℕ} (h : Placed p extents fsp) :
    ∃ p' extents' fsp', p.compactPage = .ok p' ∧ (∀ s, p'.getValue s = p.getValue s) ∧
      p'.getNumSlots = p.getNumSlots ∧ Placed p' extents' fsp' ∧
      (∀ b, fsp' ≤ b → b < pageSize → ∃ e ∈ extents', e.1 ≤ b ∧ b < e.1 + e.2) ∧
      p'.getDeletedBytes = .ok 0 ∧
      (p'.getFreeSpace = p.getFreeSpace ↔ ∃ deleted, p.getDeletedBytes = .ok deleted ∧
        pageSize - fsp = (extents.map Prod.snd).sum + deleted) := by
  have hrep := h.rep
  have hhdr := h.header
  have hfsp := h.fsp_le
  have hsum := Extents.sum_le h.apart h.inside
  have hlive := h.liveBytes
  have hptr : p.cell 1 = fsp := by
    have := h.getFreeSpacePtr
    rw [getFreeSpacePtr_eq] at this
    exact Except.ok.inj this
  have hsize : (p.readDir extents).headerSize = headerStart + extents.length * slotMetadataSize := by
    simp [SlotDir.headerSize, readDir]
  obtain ⟨p', hrun, hrep'⟩ := compactPage_rep hrep (by omega)
  have hpacked := SlotDir.compact_packed (d := p.readDir extents) (by omega)
  have hfsp' := (p.readDir extents).compact_fsp
  have hsize' := (p.readDir extents).compact_headerSize
  have hplaced := placed_of_rep hrep' (by omega) (by omega) hpacked
  have hsum' : ((extentsOf p' (p.readDir extents).compact.slots 0).map Prod.snd).sum =
      (extents.map Prod.snd).sum := by
    rw [extentsOf_snd, ← hlive, ← SlotDir.compact_liveBytes]
    rfl
  refine ⟨p', _, _, hrun, ?_, ?_, hplaced, ?_, ?_, ?_⟩
  · intro s
    rw [getValue_rep hrep', getValue_rep hrep, SlotDir.get_eq, SlotDir.get_eq,
      SlotDir.compact_values]
  · rw [getNumSlots_eq, getNumSlots_eq, hrep'.numSlots, hrep.numSlots, SlotDir.compact_length]
  · intro b hlo hhi
    exact Extents.covers hplaced.apart hplaced.inside (by omega) hlo hhi
  · rw [getDeletedBytes_eq, hrep'.deletedBytes]
    rfl
  · have hfree : (p.readDir extents).freeSpace =
        fsp - (p.readDir extents).headerSize + p.cell 2 := by
      rw [SlotDir.freeSpace, SlotDir.gap]
      exact congrArg (fun n => n - _ + _) hptr
    have hfree' : (p.readDir extents).compact.freeSpace =
        pageSize - (p.readDir extents).liveBytes - (p.readDir extents).headerSize := by
      rw [SlotDir.freeSpace, SlotDir.gap, hfsp', hsize']
      rfl
    rw [getFreeSpace_rep hrep' (by omega), getFreeSpace_rep hrep (by
      rw [hsize]; exact hhdr.trans hptr.ge), getDeletedBytes_eq, hfree, hfree']
    simp only [Except.ok.injEq, exists_eq_left']
    omega

/-- A page with a hole between its values. -/
theorem compactPage_packs_hole :
    ∃ as p extents fsp p', runNew 7 [.add [1, 2], .add [3, 3, 3], .add [4], .delete 1] = .ok (as, p) ∧
      Placed p extents fsp ∧ p.compactPage = .ok p' ∧ (∀ s, p'.getValue s = p.getValue s) ∧
      p'.getNumSlots = p.getNumSlots ∧ p'.getFreeSpace = p.getFreeSpace ∧
      p'.getDeletedBytes = .ok 0 := by
  obtain ⟨as, p, d, hrun, h, hw, -⟩ :=
    runNew_spec 7 [.add [1, 2], .add [3, 3, 3], .add [4], .delete 1] (by decide)
  have hplaced := placed_of_rep h hw.header_le hw.fsp_le hw.packed
  obtain ⟨p', -, -, hcompact, hget, hnum, -, -, hdel, hfree⟩ := compactPage_packs hplaced
  have haccount : pageSize - d.fsp =
      ((extentsOf p d.slots 0).map Prod.snd).sum + d.deletedBytes := by
    have := hw.account
    rw [extentsOf_snd]
    show _ = d.liveBytes + _
    omega
  refine ⟨as, p, _, _, p', hrun, hplaced, hcompact, hget, hnum, hfree.mpr ⟨_, ?_, haccount⟩, hdel⟩
  rw [getDeletedBytes_eq, h.deletedBytes]

/-- A page with one value of one byte at its end and a free space pointer far below it. -/
def gapPage : Page :=
  ((((Page.new 7).putCell 0 1 (by decide)).putCell 1 4000 (by decide)).putCell 4 4095 (by decide)).putCell
    5 1 (by decide)

/-- The extents of the page are apart and above the free space pointer, but the bytes between them are
not counted as deleted; a compaction makes them free. -/
theorem compactPage_frees_gap : Placed gapPage [(4095, 1)] 4000 ∧ gapPage.getFreeSpace = .ok 3972 ∧
    ∃ p', gapPage.compactPage = .ok p' ∧ p'.getFreeSpace = .ok 4067 := by
  have hplaced : Placed gapPage [(4095, 1)] 4000 :=
    ⟨by decide +kernel, by decide +kernel, by decide +kernel, ⟨28, by decide +kernel, by decide⟩,
      by decide, by decide, List.pairwise_singleton _ _⟩
  have hfree : (gapPage.compactPage >>= getFreeSpace) = .ok 4067 := by decide +kernel
  exact ⟨hplaced, by decide +kernel, bind_eq_ok.mp hfree⟩

end Page

end CrustyDB
