import CrustyDB.Page.PageContract

/-! # The live values of a page

`SlotDir.live` lists the values a page holds, in slot order, as its iterator shows them.  The
operations of a page are described on this list: adding puts a value somewhere, deleting takes one
out, updating replaces one (`Added.live_perm`, `Deleted.live_perm`,
`Updated.live_perm`).

A page whose live values lie in its first slots is a `Front`: this is how a page looks that is being
filled, from empty or after all its values have been deleted.  `Front.addAll` says when a list of
values fits behind those it has. -/

namespace CrustyDB

open List

namespace SlotDir

/-- The values of the slots that hold one, in slot order. -/
def live (d : SlotDir) : List (List UInt8) := d.values.filter (fun v => !v.isEmpty)

theorem iterFrom_fst (slots : List Slot) (i : ℕ) :
    (iterFrom slots i).map Prod.fst = (slots.map Slot.value).filter (fun v => !v.isEmpty) := by
  induction slots generalizing i with
  | nil => rfl
  | cons s slots ih =>
    unfold iterFrom
    cases hv : s.value with
    | nil => simp [hv, ih]
    | cons b bs => simp [hv, ih]

/-- The iterator shows the live values. -/
theorem iter_fst (d : SlotDir) : d.iter.map Prod.fst = d.live := iterFrom_fst d.slots 0

variable {d d' : SlotDir} {v bytes : List UInt8} {s : SlotId}

theorem mem_iter (h : d.WF) : (v, s) ∈ d.iter ↔ d.get s = some v := (iter_lists h).mem v s

theorem liveBytes_eq (d : SlotDir) : d.liveBytes = (d.live.map List.length).sum := by
  unfold liveBytes live
  induction d.values with
  | nil => rfl
  | cons v vs ih =>
    cases v with
    | nil => simp [ih]
    | cons b bs => simp [ih]

/-- The space that is left: what the header, the slots and the live values do not take. -/
theorem WF.freeSpace_add (h : d.WF) :
    d.freeSpace + 24 + 4 * d.slots.length + d.liveBytes = 4096 := by
  have h1 := h.header_le
  have h2 := h.account
  unfold freeSpace gap
  unfold headerSize at *
  simp only [Page.headerStart, pageFixedHeaderLen, heapPageFixedMetadataSize, slotMetadataSize,
    pageSize] at *
  omega

theorem live_length_le (d : SlotDir) : d.live.length ≤ d.slots.length := by
  rw [← values_length]
  exact length_filter_le _ _

/-- A page with a free slot holds fewer values than it has slots. -/
theorem live_length_lt (h : d.firstFree ≠ d.slots.length) : d.live.length < d.slots.length := by
  have hmem := mem_of_getElem? (firstFree_getElem? h)
  rw [← values_length]
  refine lt_of_le_of_ne (length_filter_le _ _) (fun hlen => ?_)
  have := (length_filter_eq_length_iff.mp hlen) [] hmem
  cases this

/-- A page without a free slot holds a value in every slot. -/
theorem live_length_eq (h : d.firstFree = d.slots.length) : d.live.length = d.slots.length := by
  rw [← values_length]
  refine length_filter_eq_length_iff.mpr (fun v hv => ?_)
  obtain ⟨j, hj⟩ := mem_iff_getElem?.mp hv
  obtain ⟨hlt, -⟩ := List.getElem?_eq_some_iff.mp hj
  have hne := ne_nil_of_lt_firstFree (d := d) (j := j) (by rw [h, ← values_length]; exact hlt) hj
  cases v with
  | nil => exact absurd rfl hne
  | cons b bs => rfl

/-! ### The operations -/

theorem filter_value (h : v ≠ []) : [v].filter (fun v => !v.isEmpty) = [v] := by
  cases v with
  | nil => exact absurd rfl h
  | cons b bs => rfl

/-- Writing one value leaves the values before and after it in their order. -/
theorem filter_set_split {l : List (List UInt8)} {i : ℕ} (h : l[i]? = some v) (w : List UInt8) :
    ∃ l₁ l₂, l.filter (fun v => !v.isEmpty) =
        l₁ ++ ([v].filter (fun v => !v.isEmpty) ++ l₂) ∧
      (l.set i w).filter (fun v => !v.isEmpty) =
        l₁ ++ ([w].filter (fun v => !v.isEmpty) ++ l₂) := by
  obtain ⟨l₁, l₂, hl, hset⟩ := set_split h
  refine ⟨l₁.filter (fun v => !v.isEmpty), l₂.filter (fun v => !v.isEmpty), ?_, ?_⟩
  · rw [hl, ← filter_append, ← filter_append]
    rfl
  · rw [hset, ← filter_append, ← filter_append]
    rfl

theorem Added.values_eq (h : d.Added bytes s d') :
    d'.values = if d.firstFree = d.slots.length then d.values ++ [bytes]
      else d.values.set d.firstFree bytes := by
  have hle := d.firstFree_le
  refine ext_getElem? (fun j => ?_)
  rw [h.values]
  split_ifs with hj hfull hfull
  · rw [hj, hfull, ← values_length]
    simp
  · rw [hj, getElem?_set_self]
    rw [values_length]
    omega
  · rw [getElem?_append]
    split_ifs with hlt
    · rfl
    · have hge : d.values.length ≤ j := by omega
      rw [getElem?_eq_none hge, getElem?_eq_none]
      rw [length_singleton]
      rw [values_length] at *
      omega
  · rw [getElem?_set_ne (Ne.symm hj)]

/-- A value that is added goes between the others. -/
theorem Added.live_split (h : d.Added bytes s d') (hb : bytes ≠ []) :
    ∃ l₁ l₂, d.live = l₁ ++ l₂ ∧ d'.live = l₁ ++ bytes :: l₂ := by
  unfold SlotDir.live
  rw [h.values_eq]
  split_ifs with hfull
  · refine ⟨_, [], (append_nil _).symm, ?_⟩
    rw [filter_append, filter_value hb]
  · obtain ⟨l₁, l₂, hold, hnew⟩ := filter_set_split (firstFree_getElem? hfull) bytes
    rw [filter_value hb] at hnew
    exact ⟨l₁, l₂, hold, hnew⟩

theorem Added.live_perm (h : d.Added bytes s d') (hb : bytes ≠ []) :
    d'.live.Perm (bytes :: d.live) := by
  obtain ⟨l₁, l₂, hold, hnew⟩ := h.live_split hb
  rw [hold, hnew]
  exact perm_middle

theorem Added.slots_length (h : d.Added bytes s d') :
    d'.slots.length = if d.firstFree = d.slots.length then d.slots.length + 1 else d.slots.length := by
  rw [← values_length, h.values_eq]
  split_ifs
  · rw [length_append, length_singleton, values_length]
  · rw [length_set, values_length]

theorem Deleted.live_perm (h : d.Deleted s d') (hv : d.get s = some v) :
    d.live.Perm (v :: d'.live) := by
  obtain ⟨hval, hne⟩ := get_eq_some.mp hv
  obtain ⟨l₁, l₂, hold, hnew⟩ := filter_set_split hval []
  rw [filter_value hne] at hold
  unfold SlotDir.live
  rw [h.values, hold, hnew]
  exact perm_middle

theorem Deleted.slots_length (h : d.Deleted s d') : d'.slots.length = d.slots.length := by
  rw [← values_length, h.values, length_set, values_length]

/-- A value that is updated stays where it is. -/
theorem Updated.live_split (h : d.Updated s bytes d') (hv : d.get s = some v) (hb : bytes ≠ []) :
    ∃ l₁ l₂, d.live = l₁ ++ v :: l₂ ∧ d'.live = l₁ ++ bytes :: l₂ := by
  obtain ⟨hval, hne⟩ := get_eq_some.mp hv
  obtain ⟨l₁, l₂, hold, hnew⟩ := filter_set_split hval bytes
  rw [filter_value hne] at hold
  rw [filter_value hb, ← h.values] at hnew
  exact ⟨l₁, l₂, hold, hnew⟩

theorem Updated.live_perm (h : d.Updated s bytes d') (hv : d.get s = some v) (hb : bytes ≠ []) :
    ∃ rest, d.live.Perm (v :: rest) ∧ d'.live.Perm (bytes :: rest) := by
  obtain ⟨l₁, l₂, hold, hnew⟩ := h.live_split hv hb
  refine ⟨l₁ ++ l₂, ?_, ?_⟩
  · rw [hold]
    exact perm_middle
  · rw [hnew]
    exact perm_middle

theorem Updated.slots_length (h : d.Updated s bytes d') : d'.slots.length = d.slots.length := by
  rw [← values_length, h.values, length_set, values_length]

/-! ### Deleting every value -/

theorem delete_values (d : SlotDir) (s : SlotId) : (d.delete s).2.values = d.values.set s.toNat [] := by
  unfold delete
  cases hs : d.slots[s.toNat]? with
  | none =>
    have hlen : d.values.length ≤ s.toNat := by
      rw [values_length]
      exact List.getElem?_eq_none_iff.mp hs
    exact (set_eq_of_length_le hlen).symm
  | some t =>
    simp only
    split_ifs with hv
    · have hval : d.values[s.toNat]? = some [] := hv ▸ values_getElem? hs
      obtain ⟨hlt, hget⟩ := List.getElem?_eq_some_iff.mp hval
      have hset := set_getElem_self hlt
      rw [hget] at hset
      exact hset.symm
    · exact d.release_values s.toNat t

theorem delete_wf (hw : d.WF) (s : SlotId) : (d.delete s).2.WF := by
  cases hd : d.delete s with
  | mk r d' =>
    cases r with
    | none => exact (delete_none hd).2 ▸ hw
    | some u => exact (delete_some hw hd).wf

theorem delete_keeps (hw : d.WF) (he : d.Exact) (s : SlotId) :
    (d.delete s).2.WF ∧ (d.delete s).2.Exact :=
  ⟨delete_wf hw s, delete_exact he (Prod.mk.eta (p := d.delete s)).symm⟩

/-- Delete the listed slots one after the other. -/
def deleteAll (d : SlotDir) (slots : List SlotId) : SlotDir :=
  slots.foldl (fun d s => (d.delete s).2) d

theorem deleteAll_keeps (hw : d.WF) (he : d.Exact) (slots : List SlotId) :
    (d.deleteAll slots).WF ∧ (d.deleteAll slots).Exact := by
  induction slots generalizing d with
  | nil => exact ⟨hw, he⟩
  | cons s slots ih =>
    obtain ⟨hw', he'⟩ := delete_keeps hw he s
    exact ih hw' he'

theorem deleteAll_values (d : SlotDir) (slots : List SlotId) :
    (d.deleteAll slots).values.length = d.values.length ∧
      ∀ (j : ℕ) (v : List UInt8), (d.deleteAll slots).values[j]? = some v → v ≠ [] →
        d.values[j]? = some v ∧ ∀ s ∈ slots, s.toNat ≠ j := by
  induction slots generalizing d with
  | nil =>
    refine ⟨rfl, fun j v hv _ => ⟨hv, fun s hs => ?_⟩⟩
    cases hs
  | cons s slots ih =>
    obtain ⟨h1, h2⟩ := ih (d.delete s).2
    rw [delete_values, length_set] at h1
    refine ⟨h1, fun j v hv hne => ?_⟩
    obtain ⟨h3, h4⟩ := h2 j v hv hne
    rw [delete_values] at h3
    by_cases hj : s.toNat = j
    · subst hj
      obtain ⟨hlt, -⟩ := List.getElem?_eq_some_iff.mp h3
      rw [length_set] at hlt
      rw [getElem?_set_self hlt] at h3
      exact absurd (Option.some.inj h3).symm hne
    · rw [getElem?_set_ne hj] at h3
      refine ⟨h3, fun t ht => ?_⟩
      rcases mem_cons.mp ht with rfl | ht
      · exact hj
      · exact h4 t ht

/-- Once every value is deleted, the slots are empty. -/
theorem deleteAll_iter (hw : d.WF) :
    (d.deleteAll (d.iter.map Prod.snd)).values = List.replicate d.slots.length [] := by
  obtain ⟨h1, h2⟩ := deleteAll_values d (d.iter.map Prod.snd)
  refine eq_replicate_iff.mpr ⟨by rw [h1, values_length], fun v hv => ?_⟩
  by_contra hne
  obtain ⟨j, hj⟩ := mem_iff_getElem?.mp hv
  obtain ⟨h3, h4⟩ := h2 j v hj hne
  obtain ⟨hlt, -⟩ := List.getElem?_eq_some_iff.mp h3
  rw [values_length] at hlt
  have hid := toNat_slotId hw hlt.le
  refine h4 (UInt16.ofNat j) (mem_map.mpr ⟨(v, UInt16.ofNat j), ?_, rfl⟩) hid
  rw [mem_iter hw, get_eq_some, hid]
  exact ⟨h3, hne⟩

/-! ### Pages that are being filled -/

/-- The page holds the values `vs` in its first slots and nothing in the `z` slots behind them. -/
structure Front (d : SlotDir) (vs : List (List UInt8)) (z : ℕ) : Prop where
  wf : d.WF
  exact : d.Exact
  values : d.values = vs ++ List.replicate z []
  nonempty : ∀ v ∈ vs, v ≠ []

theorem Front.empty (pageId : PageId) : (SlotDir.empty pageId).Front [] 0 :=
  ⟨empty_wf pageId, empty_exact pageId, rfl, fun v hv => by cases hv⟩

/-- A page all whose values have been deleted. -/
theorem Front.drained (hw : d.WF) (he : d.Exact) :
    (d.deleteAll (d.iter.map Prod.snd)).Front [] d.slots.length := by
  obtain ⟨h1, h2⟩ := deleteAll_keeps hw he (d.iter.map Prod.snd)
  exact ⟨h1, h2, deleteAll_iter hw, fun v hv => by cases hv⟩

namespace Front

variable {d : SlotDir} {vs : List (List UInt8)} {z : ℕ}

theorem slots_length (h : d.Front vs z) : d.slots.length = vs.length + z := by
  rw [← values_length, h.values, length_append, length_replicate]

theorem live (h : d.Front vs z) : d.live = vs := by
  unfold SlotDir.live
  rw [h.values, filter_append, filter_eq_self.mpr, filter_eq_nil_iff.mpr,
    append_nil]
  · intro v hv
    rw [eq_of_mem_replicate hv]
    decide
  · intro v hv
    cases v with
    | nil => exact absurd rfl (h.nonempty [] hv)
    | cons b bs => rfl

theorem firstFree (h : d.Front vs z) : d.firstFree = vs.length := by
  unfold SlotDir.firstFree
  rw [h.values]
  have hnone : vs.findIdx (fun v => v.isEmpty) = vs.length := by
    refine findIdx_eq_length.mpr (fun v hv => ?_)
    cases v with
    | nil => exact absurd rfl (h.nonempty [] hv)
    | cons b bs => rfl
  rw [findIdx_append, hnone, if_neg (lt_irrefl _)]
  cases z with
  | zero => simp
  | succ z => simp [replicate_succ, findIdx_cons]

/-- A value that is added goes behind the others. -/
theorem added (h : d.Front vs z) {b : List UInt8} (hb : b ≠ []) {s : SlotId} {d' : SlotDir}
    (hadd : d.add b = .ok (some s, d')) : d'.Front (vs ++ [b]) (z - 1) := by
  have hA := add_some h.wf hadd
  refine ⟨hA.wf, add_exact h.exact hb hadd, ?_, ?_⟩
  · rw [hA.values_eq, h.firstFree, h.slots_length, h.values]
    cases z with
    | zero =>
      rw [if_pos (by omega)]
      simp
    | succ z =>
      rw [if_neg (by omega), set_append_right _ _ le_rfl, Nat.sub_self,
        replicate_succ, set_cons_zero, append_assoc]
      rfl
  · intro v hv
    rcases mem_append.mp hv with hv | hv
    · exact h.nonempty v hv
    · rw [mem_singleton.mp hv]
      exact hb

/-- One more value, in a free slot or, on a page that was never emptied, in a new one. -/
theorem add (h : d.Front vs z) {b : List UInt8} (hb : b ≠ [])
    (hz : 0 < z ∨ (z = 0 ∧ d.deletedBytes = 0))
    (hroom : 24 + 4 * max (vs.length + 1) (vs.length + z) + (vs.map List.length).sum + b.length < 4096) :
    ∃ s d', d.add b = .ok (some s, d') ∧ d'.Front (vs ++ [b]) (z - 1) ∧
      (d.deletedBytes = 0 → d'.deletedBytes = 0) := by
  have hfree := h.wf.freeSpace_add
  rw [liveBytes_eq, h.live, h.slots_length] at hfree
  have hlen := h.slots_length
  have hff := h.firstFree
  have hmeta : slotMetadataSize = 4 := rfl
  have hr : d.Room b := by
    unfold Room
    rw [hff, hlen, hmeta]
    rcases hz with hz | ⟨hz, hdel⟩
    · rw [if_neg (by omega)]
      omega
    · rw [if_pos (by omega)]
      unfold freeSpace at hfree ⊢
      omega
  obtain ⟨⟨r, d'⟩, hadd⟩ := add_ok h.exact b
  have hdeleted : d.deletedBytes = 0 → d'.deletedBytes = 0 := by
    intro hd0
    rw [add_room hr] at hadd
    split_ifs at hadd
    rw [← (Prod.mk.inj (Except.ok.inj hadd)).2]
    have htarget : d.addTarget.deletedBytes = d.deletedBytes := by
      unfold addTarget grow
      split_ifs <;> rfl
    unfold writeAt
    simp only
    split_ifs
    · rfl
    · exact htarget.trans hd0
  cases r with
  | none => exact absurd hr (add_none hadd).1
  | some s => exact ⟨s, d', hadd, h.added hb hadd, hdeleted⟩

end Front

/-- Add the values one after the other. -/
def addAll : SlotDir → List (List UInt8) → Checked SlotDir
  | d, [] => .ok d
  | d, b :: bs => do
    let (_, d) ← d.add b
    addAll d bs

/-- A list of values goes behind those of the page when there is room for all of them. -/
theorem Front.addAll {vs bs : List (List UInt8)} {z : ℕ} (h : d.Front vs z) (hb : ∀ b ∈ bs, b ≠ [])
    (hz : bs.length ≤ z ∨ (z = 0 ∧ d.deletedBytes = 0))
    (hroom : 24 + 4 * max (vs.length + bs.length) (vs.length + z) + (vs.map List.length).sum +
      (bs.map List.length).sum < 4096) :
    ∃ d', d.addAll bs = .ok d' ∧ d'.Front (vs ++ bs) (z - bs.length) ∧
      (d.deletedBytes = 0 → d'.deletedBytes = 0) := by
  induction bs generalizing d vs z with
  | nil => exact ⟨d, rfl, by simpa using h, id⟩
  | cons b bs ih =>
    rw [map_cons, sum_cons, length_cons] at hroom
    rw [length_cons] at hz
    have hfirst := h.add (hb b mem_cons_self) (hz.imp (fun hz => by omega) id) (by omega)
    obtain ⟨s, d₁, hadd, hf, hdel⟩ := hfirst
    obtain ⟨d', hall, hf', hdel'⟩ := ih hf (fun c hc => hb c (mem_cons_of_mem _ hc))
      (hz.imp (fun hz => by omega) (fun hz => ⟨by omega, hdel hz.2⟩))
      (by simp only [length_append, length_singleton, map_append, map_cons,
            map_nil, sum_append, sum_cons, sum_nil]; omega)
    refine ⟨d', ?_, ?_, fun h0 => hdel' (hdel h0)⟩
    · show (d.add b >>= fun x => x.2.addAll bs) = _
      rw [hadd]
      exact hall
    · rw [append_assoc] at hf'
      have hlen : z - (b :: bs).length = z - 1 - bs.length := by
        rw [length_cons]
        omega
      rw [hlen]
      exact hf'

end SlotDir

end CrustyDB
