import CrustyDB.Query.OperatorContracts
import CrustyDB.Lib.MergeJoin

/-! # The sort-merge join

The six cursors of a sort-merge join walk through its two sorted buffers as the merge of two lists
does: `lFirst`, `lEnd` and `rFirst`, `rEnd` bound the current runs of equal keys, `lCursor` and
`rCursor` run through their pairs.  `SortMergeJoin.contract` says that the join returns the merge of
the two sorted inputs, in both modes. -/

namespace CrustyDB

open Pull MergeJoin List

variable {σ τ : Type} (m : Managers)

namespace SortMergeJoin

/-- The merge of two buffers. -/
def merged (ascs : List Bool) (l r : List Keyed) : List Tuple :=
  join (compareKeys ascs) Prod.fst Prod.fst (fun a b => a.2.merge b.2) l r

/-- All pairs of two runs. -/
def crossed (l r : List Keyed) : List Tuple := pairs (fun a b => a.2.merge b.2) l r

/-! ### The search for the next range -/

theorem compareKeys_self (ascs : List Bool) (key : List Field) : compareKeys ascs key key = .eq := by
  induction ascs generalizing key with
  | nil => cases key <;> rfl
  | cons asc ascs ih =>
    cases key with
    | nil => rfl
    | cons a as => simp [compareKeys, ih]

/-- The run that starts at a position: its end, its elements and what is behind it. -/
theorem runEnd_spec (ascs : List Bool) {data : List Keyed} {i : ℕ} {a : Keyed} {as : List Keyed}
    (h : data.drop i = a :: as) :
    i < runEnd ascs a.1 data i ∧ runEnd ascs a.1 data i ≤ data.length ∧
      (data.take (runEnd ascs a.1 data i)).drop i =
        a :: as.takeWhile (fun x => compareKeys ascs a.1 x.1 = .eq) ∧
      data.drop (runEnd ascs a.1 data i) = as.dropWhile (fun x => compareKeys ascs a.1 x.1 = .eq) := by
  have hrun : (data.drop i).takeWhile (fun x => compareKeys ascs a.1 x.1 = .eq) =
      a :: as.takeWhile (fun x => compareKeys ascs a.1 x.1 = .eq) := by
    rw [h, takeWhile_cons, if_pos (decide_eq_true (compareKeys_self ascs a.1))]
  have hend : runEnd ascs a.1 data i =
      i + (a :: as.takeWhile (fun x => compareKeys ascs a.1 x.1 = .eq)).length := by
    rw [runEnd, hrun]
  have hsplit : data.drop i = (a :: as.takeWhile (fun x => compareKeys ascs a.1 x.1 = .eq)) ++
      as.dropWhile (fun x => compareKeys ascs a.1 x.1 = .eq) := by
    rw [h, cons_append, takeWhile_append_dropWhile]
  have hlength := congrArg List.length hsplit
  rw [length_drop, length_append, length_cons] at hlength
  refine ⟨?_, ?_, ?_, ?_⟩
  · rw [hend, length_cons]
    omega
  · rw [hend, length_cons]
    omega
  · rw [hend, drop_take, Nat.add_sub_cancel_left, hsplit, take_left']
    rfl
  · rw [hend, ← drop_drop, hsplit, drop_left']
    rfl

/-- Where the search for equal keys ends. -/
theorem seek_spec (ascs : List Bool) (left right : List Keyed) (rounds l r : ℕ)
    (hl : l ≤ left.length) (hr : r ≤ right.length)
    (hrounds : (left.length - l) + (right.length - r) < rounds) :
    match seek ascs left right rounds l r with
    | (i, j, false) => (i = left.length ∨ j = right.length) ∧
        merged ascs (left.drop l) (right.drop r) = []
    | (i, j, true) => ∃ a as b bs, left.drop i = a :: as ∧ right.drop j = b :: bs ∧
        compareKeys ascs a.1 b.1 = .eq ∧
        merged ascs (left.drop l) (right.drop r) = merged ascs (a :: as) (b :: bs) := by
  induction rounds generalizing l r with
  | zero => omega
  | succ rounds ih =>
    rw [seek]
    cases ha : left[l]? with
    | none =>
      have hl' : left.length ≤ l := List.getElem?_eq_none_iff.mp ha
      refine ⟨.inl (le_antisymm hl hl'), ?_⟩
      rw [drop_eq_nil_of_le hl', merged, join_nil_left]
    | some a =>
      cases hb : right[r]? with
      | none =>
        have hr' : right.length ≤ r := List.getElem?_eq_none_iff.mp hb
        refine ⟨.inr (le_antisymm hr hr'), ?_⟩
        rw [drop_eq_nil_of_le hr', merged, join_nil_right]
      | some b =>
        have hl' : l < left.length := (List.getElem?_eq_some_iff.mp ha).1
        have hr' : r < right.length := (List.getElem?_eq_some_iff.mp hb).1
        have hdl : left.drop l = a :: left.drop (l + 1) := by
          rw [drop_eq_getElem?_toList_append, ha]
          rfl
        have hdr : right.drop r = b :: right.drop (r + 1) := by
          rw [drop_eq_getElem?_toList_append, hb]
          rfl
        dsimp only
        cases hcmp : compareKeys ascs a.1 b.1 with
        | lt =>
          have hmerged : merged ascs (left.drop l) (right.drop r) =
              merged ascs (left.drop (l + 1)) (right.drop r) := by
            rw [hdl, hdr, merged, join, hcmp, merged]
          rw [hmerged]
          exact ih (l + 1) r hl' hr (by omega)
        | gt =>
          have hmerged : merged ascs (left.drop l) (right.drop r) =
              merged ascs (left.drop l) (right.drop (r + 1)) := by
            rw [hdl, hdr, merged, join, hcmp, merged]
          rw [hmerged]
          exact ih l (r + 1) hl hr' (by omega)
        | eq =>
          refine ⟨a, _, b, _, hdl, hdr, hcmp, ?_⟩
          rw [hdl, hdr]

/-! ### The cursors -/

/-- The pairs of the current range that are still to be returned. -/
def ahead (s : SortMergeJoin σ τ) : List Tuple :=
  match (s.left.sortedData.take s.lEnd).drop s.lCursor with
  | [] => []
  | a :: as =>
    ((s.right.sortedData.take s.rEnd).drop s.rCursor).map (fun b => a.2.merge b.2) ++
      crossed as ((s.right.sortedData.take s.rEnd).drop s.rFirst)

/-- The pairs behind the current range. -/
def behind (ascs : List Bool) (s : SortMergeJoin σ τ) : List Tuple :=
  merged ascs (s.left.sortedData.drop s.lEnd) (s.right.sortedData.drop s.rEnd)

/-- The cursors are in the current range, or at its end. -/
structure Bounded (s : SortMergeJoin σ τ) : Prop where
  left : s.lEnd ≤ s.left.sortedData.length
  right : s.rEnd ≤ s.right.sortedData.length
  cursor : s.lCursor = s.lEnd ∨
    (s.lFirst ≤ s.lCursor ∧ s.lCursor < s.lEnd ∧ s.rFirst ≤ s.rCursor ∧ s.rCursor < s.rEnd)

variable {s : SortMergeJoin σ τ}

theorem ahead_of_end (h : s.lCursor = s.lEnd) : s.ahead = [] := by
  have hnil : (s.left.sortedData.take s.lEnd).drop s.lCursor = [] := by
    rw [h]
    exact drop_eq_nil_of_le (length_take_le _ _)
  rw [ahead, hnil]

theorem ahead_of_start (h : s.rCursor = s.rFirst) :
    s.ahead = crossed ((s.left.sortedData.take s.lEnd).drop s.lCursor)
      ((s.right.sortedData.take s.rEnd).drop s.rFirst) := by
  unfold ahead
  cases (s.left.sortedData.take s.lEnd).drop s.lCursor with
  | nil => rfl
  | cons a as => simp only [crossed, pairs, flatMap_cons, h]

theorem drop_take_eq_cons {data : List Keyed} {i j : ℕ} (hij : i < j) (hi : i < data.length) :
    (data.take j).drop i = data[i] :: (data.take j).drop (i + 1) := by
  rw [drop_eq_getElem_cons (by rw [length_take]; omega), getElem_take]

/-- In the range, the pair at the cursors is the next one. -/
theorem ahead_of_lt (h : s.Bounded) (hl : s.lCursor < s.lEnd) (hr : s.rCursor < s.rEnd) :
    ∃ a b, s.left.sortedData[s.lCursor]? = some a ∧ s.right.sortedData[s.rCursor]? = some b ∧
      s.ahead = a.2.merge b.2 :: s.advance.ahead := by
  have hleft := h.left
  have hright := h.right
  have ha := getElem?_eq_getElem (l := s.left.sortedData) (i := s.lCursor) (by omega)
  have hb := getElem?_eq_getElem (l := s.right.sortedData) (i := s.rCursor) (by omega)
  refine ⟨_, _, ha, hb, ?_⟩
  have hahead : s.ahead = (s.left.sortedData[s.lCursor]).2.merge (s.right.sortedData[s.rCursor]).2 ::
      (((s.right.sortedData.take s.rEnd).drop (s.rCursor + 1)).map
        (fun b => (s.left.sortedData[s.lCursor]).2.merge b.2) ++
      crossed ((s.left.sortedData.take s.lEnd).drop (s.lCursor + 1))
        ((s.right.sortedData.take s.rEnd).drop s.rFirst)) := by
    rw [ahead, drop_take_eq_cons hl (by omega), drop_take_eq_cons hr (by omega)]
    rfl
  rw [hahead]
  congr 1
  by_cases hlast : s.rCursor + 1 = s.rEnd
  · have hadvance : s.advance = { s with rCursor := s.rFirst, lCursor := s.lCursor + 1 } :=
      if_pos hlast
    have hnil : (s.right.sortedData.take s.rEnd).drop (s.rCursor + 1) = [] := by
      rw [hlast]
      exact drop_eq_nil_of_le (length_take_le _ _)
    rw [hadvance, ahead_of_start rfl, hnil]
    rfl
  · have hadvance : s.advance = { s with rCursor := s.rCursor + 1 } := if_neg hlast
    rw [hadvance]
    unfold ahead
    dsimp only
    rw [drop_take_eq_cons hl (by omega)]

/-- The cursors after a pair. -/
theorem Bounded.advance (h : s.Bounded) (hlf : s.lFirst ≤ s.lCursor) (hl : s.lCursor < s.lEnd)
    (hrf : s.rFirst ≤ s.rCursor) (hr : s.rCursor < s.rEnd) : s.advance.Bounded := by
  by_cases hlast : s.rCursor + 1 = s.rEnd
  · have hadvance : s.advance = { s with rCursor := s.rFirst, lCursor := s.lCursor + 1 } :=
      if_pos hlast
    rw [hadvance]
    refine ⟨h.left, h.right, ?_⟩
    dsimp only
    omega
  · have hadvance : s.advance = { s with rCursor := s.rCursor + 1 } := if_neg hlast
    rw [hadvance]
    refine ⟨h.left, h.right, ?_⟩
    dsimp only
    omega

/-- The cursors are inside the current range. -/
def InRange (s : SortMergeJoin σ τ) : Prop :=
  s.lFirst ≤ s.lCursor ∧ s.lCursor < s.lEnd ∧ s.rFirst ≤ s.rCursor ∧ s.rCursor < s.rEnd

/-- What a round does not change; the data is kept for a later rewind. -/
structure Kept (s s' : SortMergeJoin σ τ) : Prop where
  isOpen : s'.isOpen = s.isOpen
  willRewind : s'.willRewind = s.willRewind
  data : s.willRewind = true →
    s'.left.sortedData = s.left.sortedData ∧ s'.right.sortedData = s.right.sortedData

theorem Kept.trans {s' s'' : SortMergeJoin σ τ} (h : Kept s s') (h' : Kept s' s'') :
    Kept s s'' where
  isOpen := h'.isOpen.trans h.isOpen
  willRewind := h'.willRewind.trans h.willRewind
  data := by
    intro hw
    obtain ⟨hl, hr⟩ := h.data hw
    obtain ⟨hl', hr'⟩ := h'.data (h.willRewind.trans hw)
    exact ⟨hl'.trans hl, hr'.trans hr⟩

/-- The cursors between two ranges. -/
structure Between (s : SortMergeJoin σ τ) : Prop where
  left : s.lEnd ≤ s.left.sortedData.length
  right : s.rEnd ≤ s.right.sortedData.length
  lFirst : s.lFirst = s.lEnd
  rFirst : s.rFirst = s.rEnd
  lCursor : s.lCursor = s.lEnd

theorem leaveRange_spec (ascs : List Bool) (h : s.Bounded) :
    ∃ s', s.leaveRange = .ok s' ∧ s'.Between ∧ s'.behind ascs = s.behind ascs ∧ Kept s s' := by
  have hleft := h.left
  have hright := h.right
  unfold leaveRange
  by_cases hw : s.willRewind = true
  · exact ⟨_, if_pos hw, ⟨hleft, hright, rfl, rfl, rfl⟩, rfl, ⟨rfl, rfl, fun _ => ⟨rfl, rfl⟩⟩⟩
  · rw [if_neg hw, if_neg (by omega)]
    exact ⟨_, rfl, ⟨Nat.zero_le _, Nat.zero_le _, rfl, rfl, rfl⟩, rfl,
      ⟨rfl, rfl, fun hw' => absurd hw' hw⟩⟩

/-- The next range, or the end of the merge. -/
theorem nextRange_spec (ascs : List Bool) (h : s.Between) :
    ∃ s', s.nextRange ascs = s' ∧ Kept s s' ∧ s'.Bounded ∧
      ((s'.InRange ∧ s'.lFirst < s'.left.sortedData.length ∧ s'.rFirst < s'.right.sortedData.length ∧
          s'.ahead ++ s'.behind ascs = s.behind ascs) ∨
        ((s'.lFirst = s'.left.sortedData.length ∨ s'.rFirst = s'.right.sortedData.length) ∧
          s'.lCursor = s'.lEnd ∧ s.behind ascs = [] ∧ s'.behind ascs = [])) := by
  have hseek := seek_spec ascs s.left.sortedData s.right.sortedData
    (s.left.sortedData.length + s.right.sortedData.length + 1) s.lFirst s.rFirst
    (h.lFirst.trans_le h.left) (h.rFirst.trans_le h.right) (by omega)
  unfold nextRange
  rcases hres : seek ascs s.left.sortedData s.right.sortedData
    (s.left.sortedData.length + s.right.sortedData.length + 1) s.lFirst s.rFirst with ⟨i, j, found⟩
  rw [hres, h.lFirst, h.rFirst] at hseek
  cases found with
  | false =>
    obtain ⟨hend, hbehind⟩ := hseek
    exact ⟨_, rfl, ⟨rfl, rfl, fun _ => ⟨rfl, rfl⟩⟩, ⟨h.left, h.right, .inl h.lCursor⟩,
      .inr ⟨hend, h.lCursor, hbehind, hbehind⟩⟩
  | true =>
    obtain ⟨a, as, b, bs, hl, hr, hcmp, hbehind⟩ := hseek
    obtain ⟨hli, hle, hrunl, hrestl⟩ := runEnd_spec ascs hl
    obtain ⟨hri, hre, hrunr, hrestr⟩ := runEnd_spec ascs hr
    have ha : s.left.sortedData[i]? = some a := by
      rw [← head?_drop, hl, head?_cons]
    have hb : s.right.sortedData[j]? = some b := by
      rw [← head?_drop, hr, head?_cons]
    dsimp only
    rw [ha, hb]
    refine ⟨_, rfl, ⟨rfl, rfl, fun _ => ⟨rfl, rfl⟩⟩, ⟨hle, hre, .inr ⟨le_rfl, hli, le_rfl, hri⟩⟩,
      .inl ⟨⟨le_rfl, hli, le_rfl, hri⟩, hli.trans_le hle, hri.trans_le hre, ?_⟩⟩
    rw [ahead_of_start rfl, behind, behind, hbehind, merged, merged, join, hcmp, crossed]
    dsimp only
    rw [hrunl, hrunr, hrestl, hrestr]

/-! ### The contract -/

/-- The pairs that are still to be returned. -/
def rows (ascs : List Bool) (s : SortMergeJoin σ τ) : List Tuple := s.ahead ++ s.behind ascs

/-- A round inside the range returns a pair. -/
theorem step_inRange (ascs : List Bool) (h : s.Bounded) (hin : s.InRange) :
    ∃ t, s.rows ascs = t :: s.advance.rows ascs ∧
      Ends (step ascs) s (.ok (some (some t)) s.advance) := by
  obtain ⟨hlf, hl, hrf, hr⟩ := hin
  obtain ⟨a, b, ha, hb, hahead⟩ := ahead_of_lt h hl hr
  refine ⟨a.2.merge b.2, ?_, Ends.of_eq (fun _ => ?_)⟩
  · have hbehind : s.advance.behind ascs = s.behind ascs := by
      unfold advance
      split_ifs
      · rfl
      · rfl
    rw [rows, rows, hahead, hbehind, cons_append]
  · simp only [step, get_bind]
    rw [if_pos ⟨hlf, hl, hrf, hr⟩, ha, hb]
    rfl

/-- A round at the end of the range finds the next range, or the end. -/
theorem step_end (ascs : List Bool) (h : s.Bounded) (hend : s.lCursor = s.lEnd) :
    ∃ s', Kept s s' ∧ s'.Bounded ∧ s'.rows ascs = s.rows ascs ∧
      ((s'.InRange ∧ Ends (step ascs) s (.ok none s')) ∨
        (s.rows ascs = [] ∧ Ends (step ascs) s (.ok (some none) s'))) := by
  obtain ⟨s₁, hleave, hbetween, hbehind, hkept⟩ := leaveRange_spec ascs h
  obtain ⟨s₂, hnext, hkept', hbounded, hcase⟩ := nextRange_spec ascs hbetween
  have hrows : s.rows ascs = s₁.behind ascs := by
    rw [rows, ahead_of_end hend, hbehind, nil_append]
  have hstep : ∀ n, step ascs n s =
      (if s₂.lFirst = s₂.left.sortedData.length ∨ s₂.rFirst = s₂.right.sortedData.length then
        pure (some none) else pure none : EStateM ExecError (SortMergeJoin σ τ) _) s₂ := by
    intro n
    simp only [step, get_bind]
    rw [if_neg (by omega), hleave]
    change (if (s₁.nextRange ascs).lFirst = _ ∨ _ then _ else _ : EStateM ExecError _ _)
      (s₁.nextRange ascs) = _
    rw [hnext]
  refine ⟨s₂, hkept.trans hkept', hbounded, ?_, ?_⟩
  · obtain ⟨-, -, -, hahead⟩ | ⟨-, hcursor, hnil, hnil'⟩ := hcase
    · rw [hrows, ← hahead, rows]
    · rw [hrows, hnil, rows, ahead_of_end hcursor, hnil', nil_append]
  · obtain ⟨hin, hl, hr, hahead⟩ | ⟨hover, hcursor, hnil, hnil'⟩ := hcase
    · refine .inl ⟨hin, Ends.of_eq (fun n => ?_)⟩
      rw [hstep, if_neg (by omega)]
      rfl
    · refine .inr ⟨hrows.trans hnil, Ends.of_eq (fun n => ?_)⟩
      rw [hstep, if_pos hover]
      rfl

variable {left : Operator σ} {right : Operator τ} {willRewind : Bool} {firstL firstR : Opening}
  (cl : Contract left false firstL) (cr : Contract right false firstR) (keys : MergeKeys)

/-- The sorted inputs of a join. -/
def SortedInputs (firstL firstR : Opening) (l r : List Keyed) : Prop :=
  readSorted m keys.left (keys.left.map Prod.snd) firstL = .ok l ∧
    readSorted m keys.right (keys.right.map Prod.snd) firstR = .ok r

/-- The join is open and has a trace ahead. -/
structure At (willRewind : Bool) (firstL firstR : Opening) (t : Pull.Trace ExecError Tuple)
    (s : SortMergeJoin σ τ) : Prop where
  isOpen : s.isOpen = true
  mode : s.willRewind = willRewind
  data : willRewind = true → SortedInputs m keys firstL firstR s.left.sortedData s.right.sortedData
  bounded : s.Bounded
  trace : t = Pull.Trace.ofList (s.rows (keys.left.map Prod.snd))

variable {t : Pull.Trace ExecError Tuple}

/-- A round keeps the join open. -/
theorem At.kept {willRewind : Bool} {s' : SortMergeJoin σ τ}
    (h : At m keys willRewind firstL firstR t s) (hkept : Kept s s') (hbounded : s'.Bounded) :
    At m keys willRewind firstL firstR (Pull.Trace.ofList (s'.rows (keys.left.map Prod.snd))) s' where
  isOpen := hkept.isOpen.trans h.isOpen
  mode := hkept.willRewind.trans h.mode
  data := by
    intro hw
    obtain ⟨hl, hr⟩ := hkept.data (h.mode.trans hw)
    rw [hl, hr]
    exact h.data hw
  bounded := hbounded
  trace := rfl

theorem advance_kept (s : SortMergeJoin σ τ) : Kept s s.advance := by
  unfold advance
  split_ifs
  · exact ⟨rfl, rfl, fun _ => ⟨rfl, rfl⟩⟩
  · exact ⟨rfl, rfl, fun _ => ⟨rfl, rfl⟩⟩

/-- Inside a range the join returns the next pair. -/
theorem answers_inRange (h : At m keys willRewind firstL firstR t s) (hin : s.InRange) :
    Answers (loop .diverges (step (keys.left.map Prod.snd))) (At m keys willRewind firstL firstR) t s := by
  obtain ⟨a, hrows, hstep⟩ := step_inRange (keys.left.map Prod.snd) h.bounded hin
  have hbounded := h.bounded.advance hin.1 hin.2.1 hin.2.2.1 hin.2.2.2
  rw [h.trace, hrows]
  exact ⟨_, Ends.loop_done hstep, h.kept m keys (advance_kept s) hbounded⟩

/-- The join returns the next pair, or the end. -/
theorem answers_loop (h : At m keys willRewind firstL firstR t s) :
    Answers (loop .diverges (step (keys.left.map Prod.snd))) (At m keys willRewind firstL firstR) t s := by
  obtain hend | hin := h.bounded.cursor
  · obtain ⟨s', hkept, hbounded, hrows, hstep⟩ := step_end (keys.left.map Prod.snd) h.bounded hend
    have hat := h.kept m keys hkept hbounded
    rw [h.trace, ← hrows]
    obtain ⟨hin, hstep⟩ | ⟨hnil, hstep⟩ := hstep
    · exact Answers.loop_again hstep (answers_inRange m keys hat hin)
    · rw [hrows, hnil]
      rw [hrows, hnil] at hat
      exact ⟨s', Ends.loop_done hstep, hat⟩
  · exact answers_inRange m keys h hin

/-- Reading a child fills and sorts its buffer. -/
theorem read_leaves {ρ : Type} {child : Operator ρ} {first : Opening} (c : Contract child false first)
    (exprs : List (ByteCodeExpr × Bool)) {s : ρ} (hs : c.Ready s) :
    Leaves (MergeInput.read m exprs child) (fun data s' => ∃ s'', s' = ⟨s'', true, data⟩)
      (readSorted m exprs (exprs.map Prod.snd) first) ⟨s, false, []⟩ := by
  refine Leaves.congr (x := fun n => do
    MergeInput.onChild (child.openIter n)
    drain .diverges MergeInput.child (fun t s => { s with child := t }) child.next
      (MergeInput.absorb m exprs) n
    MergeInput.onChild (child.close n)
    modify (fun s =>
      { s with childRead := true, sortedData := sortByKey (exprs.map Prod.snd) s.sortedData }))
    (fun _ => rfl) ?_
  rw [readSorted, bind_assoc]
  refine (starts_iff.mp (c.starts hs)).zoom.bind ?_
  rintro t _ - ⟨s₁, rfl, hat⟩
  refine (c.drain (k := fun data s => (⟨s, false, data⟩ : MergeInput ρ)) (fun _ _ => rfl)
    (fun _ _ _ => rfl) (fun _ _ _ => rfl) t hat).bind ?_
  rintro data _ - ⟨s₂, rfl, hdone⟩
  obtain ⟨s₃, hclose, -⟩ := c.closes (.inr (.inl ⟨_, hdone⟩))
  exact ⟨_, Ends.bind (Ends.zoom hclose) (Ends.of_eq (fun _ => rfl)), s₃, rfl⟩

/-- A sort-merge join returns the merge of its sorted inputs; a second opening is not covered. -/
def contract : Contract (iter m keys left right) willRewind
    (readSorted m keys.left (keys.left.map Prod.snd) firstL >>= fun l =>
      readSorted m keys.right (keys.right.map Prod.snd) firstR >>= fun r =>
        .ok (Pull.Trace.ofList (merged (keys.left.map Prod.snd) l r))) where
  Ready s := s.isOpen = false ∧ s.willRewind = willRewind ∧
    (∃ l, s.left = ⟨l, false, []⟩ ∧ cl.Ready l) ∧ (∃ r, s.right = ⟨r, false, []⟩ ∧ cr.Ready r) ∧
    s.lFirst = 0 ∧ s.rFirst = 0 ∧ s.lEnd = 0 ∧ s.rEnd = 0 ∧ s.lCursor = 0 ∧ s.rCursor = 0
  At := At m keys willRewind firstL firstR
  Closed _ := True
  starts := by
    rintro ⟨_, _, willRewind, isOpen, _, _, _, _, _, _⟩
      ⟨rfl, rfl, ⟨l, rfl, hl⟩, ⟨r, rfl, hr⟩, rfl, rfl, rfl, rfl, rfl, rfl⟩
    refine starts_iff.mpr (Leaves.congr (x := fun n => do
      onLeft (MergeInput.read m keys.left left n)
      onRight (MergeInput.read m keys.right right n)
      modify (fun s => { s with isOpen := true })) (fun _ => rfl) ?_)
    refine Leaves.bind (Leaves.zoom (read_leaves m cl keys.left hl)) ?_
    rintro dl _ hdl ⟨_, rfl, l', rfl⟩
    refine Leaves.bind (Leaves.zoom (read_leaves m cr keys.right hr)) ?_
    rintro dr _ hdr ⟨_, rfl, r', rfl⟩
    exact ⟨⟨⟨l', true, dl⟩, ⟨r', true, dr⟩, willRewind, true, 0, 0, 0, 0, 0, 0⟩,
      Ends.of_eq (fun _ => rfl), rfl, rfl, fun _ => ⟨hdl, hdr⟩,
      ⟨Nat.zero_le _, Nat.zero_le _, .inl rfl⟩, rfl⟩
  answers := by
    intro s t h
    refine Answers.congr (fun n => ?_) (answers_loop m keys h)
    change next keys n s = _
    simp only [next, get_bind, h.isOpen, require_true]
  rewinds := by
    intro s t hw h
    obtain ⟨hl, hr⟩ := h.data hw
    refine ⟨Pull.Trace.ofList (merged (keys.left.map Prod.snd) s.left.sortedData s.right.sortedData),
      { s with lFirst := 0, lEnd := 0, lCursor := 0, rFirst := 0, rEnd := 0, rCursor := 0 }, ?_,
      Ends.of_eq (fun n => ?_), h.isOpen, h.mode, h.data,
      ⟨Nat.zero_le _, Nat.zero_le _, .inl rfl⟩, rfl⟩
    · rw [hl, hr]
      rfl
    · change rewind n s = _
      simp only [rewind, get_bind, h.isOpen, require_true]
      rfl
  closes := fun _ => ⟨_, Ends.of_eq (fun _ => rfl), trivial⟩

end SortMergeJoin

end CrustyDB
