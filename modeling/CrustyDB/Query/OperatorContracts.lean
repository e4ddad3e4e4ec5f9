import CrustyDB.Query.Operators

/-! # The operators keep the iterator contract

For every operator, the contract of its children gives its own: the trace it returns is computed
from theirs, in both modes, with the place where an evaluation fails.  A filter and a projection map the
trace of the child, the loop joins run through the right trace for every left tuple, a hash join
probes the map it built from the left trace, a sort and an aggregate return what they made of the whole
trace of the child. -/

namespace CrustyDB

open Pull Ends Answers

variable {σ τ α : Type} (m : Managers)

/-- What the opening of an operator comes to. -/
abbrev Opening := Except ExecError (Pull.Trace ExecError Tuple)

/-- An opening that reads a first item from a trace fails if that trace begins with an error. -/
def openingOn (t : Pull.Trace ExecError Tuple) (rows : Pull.Trace ExecError Tuple) : Opening :=
  match t with
  | .fail e => .error e
  | _ => .ok rows

variable {t : Pull.Trace ExecError Tuple}

theorem eq_fail_of_openingOn {rows : Pull.Trace ExecError Tuple} {e : ExecError}
    (h : openingOn t rows = .error e) : t = .fail e := by
  cases t with
  | done => cases h
  | fail e' =>
    cases h
    rfl
  | item a t => cases h

theorem ne_fail_of_openingOn {rows rows' : Pull.Trace ExecError Tuple}
    (h : openingOn t rows = .ok rows') : ∀ e, t ≠ .fail e := by
  rintro e rfl
  cases h

theorem openingOn_of_ne_fail (h : ∀ e, t ≠ .fail e) (rows : Pull.Trace ExecError Tuple) :
    openingOn t rows = .ok rows := by
  cases t with
  | done => rfl
  | fail e => exact absurd rfl (h e)
  | item a t => rfl

theorem require_true (e : ExecError) (f : Unit → EStateM ExecError σ α) (s : σ) :
    (require true e >>= f) s = f () s := rfl

/-! ### Buffers -/

/-- What is left in a buffer that is read from the back. -/
def backlog (willRewind : Bool) (data : List α) (index : ℕ) : List α :=
  if willRewind then (data.take index).reverse else data.reverse

/-- Taking an element takes it off the backlog; a buffer that will be rewound is kept. -/
theorem takeBack_spec (willRewind : Bool) (data : List α) (index : ℕ)
    (hindex : willRewind = true → index ≤ data.length) :
    ∃ data' index', takeBack willRewind data index =
        ((backlog willRewind data index).head?, data', index') ∧
      backlog willRewind data' index' = (backlog willRewind data index).tail ∧
      (willRewind = true → data' = data ∧ index' ≤ data.length) := by
  cases willRewind with
  | false =>
    refine ⟨data.dropLast, index, ?_, ?_, fun h => nomatch h⟩
    · simp [takeBack, backlog]
    · simp [backlog]
  | true =>
    have hindex := hindex rfl
    cases index with
    | zero => exact ⟨data, 0, by simp [takeBack, backlog], by simp [backlog], fun _ => ⟨rfl, hindex⟩⟩
    | succ index =>
      have hlt : index < data.length := hindex
      have hback : backlog true data (index + 1) = data[index] :: backlog true data index := by
        simp only [backlog, if_true]
        rw [List.take_succ_eq_append_getElem hlt, List.reverse_append]
        rfl
      refine ⟨data, index, ?_, ?_, fun _ => ⟨rfl, hlt.le⟩⟩
      · rw [hback]
        simp [takeBack, hlt]
      · rw [hback, List.tail_cons]

/-! ### Scans -/

namespace SeqScan

variable (containerId : ContainerId) (filter : Option ByteCodeExpr)
  (projection : Option (List ByteCodeExpr))

/-- What a round of the scan answers: the tuple, or that another round is needed. -/
def roundOf (s : SeqScan) : Except ExecError (Option Tuple) →
    EStateM.Result ExecError SeqScan (Option (Option Tuple))
  | .ok (some t) => .ok (some (some t)) s
  | .ok none => .ok none s
  | .error e => .error e s

theorem step_record (index : Option ValueId) (record : ValueId × Tuple)
    (rest : List (ValueId × Tuple)) :
    Ends (step m filter projection) ⟨true, index, some (record :: rest)⟩
      (roundOf ⟨true, some record.1, some rest⟩ (emit m filter projection record)) := by
  refine of_eq (fun n => ?_)
  simp only [step, get_bind, set_bind]
  cases emit m filter projection record with
  | error e => rfl
  | ok t =>
    cases t with
    | none => rfl
    | some t => rfl

/-- A sequential scan returns the records of its container. -/
def contract (willRewind : Bool) : Contract (iter m containerId filter projection) willRewind
    (.ok ((Pull.Trace.ofList (m.getIterator containerId)).filterMap (emit m filter projection))) where
  Ready s := s.isOpen = false ∧ s.index = none
  At t s := s.isOpen = true ∧ ∃ rest, s.fileIter = some rest ∧
    t = (Pull.Trace.ofList rest).filterMap (emit m filter projection)
  Closed s := s.isOpen = false ∧ s.index = none
  starts := by
    rintro ⟨isOpen, index, fileIter⟩ ⟨rfl, rfl⟩
    exact ⟨_, Ends.of_eq (fun _ => rfl), rfl, _, rfl, rfl⟩
  answers := by
    rintro ⟨isOpen, index, fileIter⟩ t ⟨rfl, rest, rfl, rfl⟩
    refine Answers.congr (x := loop .diverges (step m filter projection)) (fun _ => rfl) ?_
    induction rest generalizing index with
    | nil => exact ⟨_, Ends.loop_done (Ends.of_eq (fun _ => rfl)), rfl, _, rfl, rfl⟩
    | cons record rest ih =>
      have hstep := step_record m filter projection index record rest
      rw [Pull.Trace.ofList, Pull.Trace.filterMap]
      cases hemit : emit m filter projection record with
      | error e =>
        rw [hemit] at hstep
        exact ⟨_, hstep.loop_error⟩
      | ok t =>
        rw [hemit] at hstep
        cases t with
        | none => exact Answers.loop_again hstep (ih _)
        | some t => exact ⟨_, hstep.loop_done, rfl, _, rfl, rfl⟩
  rewinds := by
    rintro ⟨isOpen, index, fileIter⟩ t - ⟨rfl, -⟩
    exact ⟨_, _, rfl, Ends.of_eq (fun _ => rfl), rfl, _, rfl, rfl⟩
  closes := fun _ => ⟨_, Ends.of_eq (fun _ => rfl), rfl, rfl⟩

end SeqScan

namespace IndexScan

variable (indexId : ContainerId) (key : IndexKey)

/-- What the scan returns for a record id. -/
def emit (id : ValueId) : Except ExecError (Option Tuple) :=
  (ofStorage (m.getValue id)).map (fun tuple => some { tuple with valueId := some id })

theorem next_of_none {found : List ValueId} {nextIdx : ℕ} (n : ℕ) (hid : found[nextIdx]? = none) :
    next m n ⟨true, found, nextIdx⟩ = .ok none ⟨true, found, nextIdx⟩ := by
  simp only [next, get_bind, require_true, hid]
  rfl

theorem next_of_some {found : List ValueId} {nextIdx : ℕ} {id : ValueId} (n : ℕ)
    (hid : found[nextIdx]? = some id) :
    next m n ⟨true, found, nextIdx⟩ = attempt (emit m id) ⟨true, found, nextIdx + 1⟩ := by
  simp only [next, get_bind, require_true, hid, set_bind, emit]
  cases ofStorage (m.getValue id) with
  | error e => rfl
  | ok t => rfl

/-- An index scan returns the records under its key. -/
def contract (willRewind : Bool) : Contract (iter m indexId key) willRewind
    ((ofStorage (m.search indexId key)).map (fun ids => (Pull.Trace.ofList ids).filterMap (emit m))) where
  Ready s := s.isOpen = false
  At t s := s.isOpen = true ∧ ofStorage (m.search indexId key) = .ok s.found ∧
    t = (Pull.Trace.ofList (s.found.drop s.nextIdx)).filterMap (emit m)
  Closed s := s.isOpen = false
  starts := by
    rintro ⟨isOpen, found, nextIdx⟩ rfl
    cases hsearch : ofStorage (m.search indexId key) with
    | error e => exact ⟨_, Ends.lift_error hsearch⟩
    | ok ids => exact ⟨⟨true, ids, 0⟩, Ends.lift hsearch (Ends.of_eq (fun _ => rfl)), rfl, rfl, rfl⟩
  answers := by
    rintro ⟨isOpen, found, nextIdx⟩ t ⟨rfl, hfound, rfl⟩
    dsimp only
    cases hid : found[nextIdx]? with
    | none =>
      have hdrop : found.drop nextIdx = [] :=
        List.drop_eq_nil_of_le (List.getElem?_eq_none_iff.mp hid)
      rw [hdrop]
      refine ⟨_, Ends.of_eq (fun n => next_of_none m n hid), rfl, hfound, ?_⟩
      rw [hdrop]
      rfl
    | some id =>
      have hnext : Ends (next m) ⟨true, found, nextIdx⟩
          (attempt (emit m id) ⟨true, found, nextIdx + 1⟩) :=
        Ends.of_eq (fun n => next_of_some m n hid)
      rw [List.drop_eq_getElem?_toList_append, hid, Option.toList_some, List.singleton_append,
        Pull.Trace.ofList, Pull.Trace.filterMap]
      cases hemit : emit m id with
      | error e =>
        rw [hemit] at hnext
        exact ⟨_, hnext⟩
      | ok t =>
        obtain ⟨tuple, rfl⟩ : ∃ tuple, t = some tuple := by
          obtain ⟨tuple, -, htuple⟩ := map_eq_ok.mp hemit
          exact ⟨_, htuple.symm⟩
        rw [hemit] at hnext
        exact ⟨_, hnext, rfl, hfound, rfl⟩
  rewinds := by
    rintro ⟨isOpen, found, nextIdx⟩ t - ⟨rfl, hfound, -⟩
    refine ⟨(Pull.Trace.ofList found).filterMap (emit m), _, ?_, Ends.of_eq (fun _ => rfl), rfl, hfound, rfl⟩
    rw [hfound]
    rfl
  closes := fun _ => ⟨_, Ends.of_eq (fun _ => rfl), rfl⟩

end IndexScan

/-- A tuple iterator returns its tuples; a second opening is not covered. -/
def TupleIterator.contract (tuples : List Tuple) (willRewind : Bool) :
    Contract iter willRewind (.ok (Pull.Trace.ofList tuples)) where
  Ready s := s.isOpen = false ∧ s.willRewind = willRewind ∧ s.tuples = tuples.reverse ∧
    s.index = tuples.length
  At t s := s.isOpen = true ∧ s.willRewind = willRewind ∧
    (willRewind = true → s.tuples = tuples.reverse ∧ s.index ≤ s.tuples.length) ∧
    t = Pull.Trace.ofList (backlog s.willRewind s.tuples s.index)
  Closed _ := True
  starts := by
    rintro ⟨tuples', willRewind, isOpen, index⟩ ⟨rfl, rfl, rfl, rfl⟩
    have hback : backlog willRewind tuples.reverse tuples.length = tuples := by
      unfold backlog
      rw [← List.length_reverse, List.take_length, List.reverse_reverse, ite_self]
    refine ⟨_, Ends.of_eq (fun _ => rfl), rfl, rfl, fun _ => ⟨rfl, by simp⟩, ?_⟩
    exact congrArg Pull.Trace.ofList hback.symm
  answers := by
    rintro ⟨tuples', willRewind, isOpen, index⟩ t ⟨rfl, rfl, hkept, rfl⟩
    dsimp only at hkept ⊢
    obtain ⟨data, index', htake, hback, hkeeps⟩ :=
      takeBack_spec willRewind tuples' index (fun h => (hkept h).2)
    refine Answers.of_head (u := ⟨data, willRewind, true, index'⟩) (Ends.of_eq (fun n => ?_))
      ⟨rfl, rfl, fun h => ?_, ?_⟩
    · change next n _ = _
      simp only [next, get_bind, require_true, htake]
      rfl
    · obtain ⟨rfl, hindex⟩ := hkeeps h
      exact ⟨(hkept h).1, hindex⟩
    · exact congrArg Pull.Trace.ofList hback.symm
  rewinds := by
    rintro ⟨tuples', willRewind, isOpen, index⟩ t rfl ⟨rfl, rfl, hkept, -⟩
    obtain rfl := (hkept rfl).1
    refine ⟨_, ⟨tuples.reverse, true, true, tuples.reverse.length⟩, rfl, Ends.of_eq (fun _ => rfl),
      rfl, rfl, fun _ => ⟨rfl, le_rfl⟩, ?_⟩
    dsimp only [backlog]
    rw [List.take_length, List.reverse_reverse, if_pos rfl]
  closes := fun _ => ⟨_, Ends.of_eq (fun _ => rfl), trivial⟩

/-! ### Filter and project -/

section Unary

variable {child : Operator σ} {willRewind : Bool} {first : Opening} (c : Contract child willRewind first)

/-- An operator with one child whose `next` maps the trace of the child. -/
def Unary.contract (next : Method (Unary σ) (Option Tuple)) (emit : Tuple → Except ExecError (Option Tuple))
    (hnext : ∀ t s, s.isOpen = true → c.At t s.child →
      Answers next (fun u s => s.isOpen = true ∧ ∃ t, c.At t s.child ∧ u = t.filterMap emit)
        (t.filterMap emit) s) :
    Contract ⟨configure child, openIter child, next, close child, rewind child⟩ willRewind
      (first >>= fun t => .ok (t.filterMap emit)) where
  Ready s := s.isOpen = false ∧ c.Ready s.child
  At u s := s.isOpen = true ∧ ∃ t, c.At t s.child ∧ u = t.filterMap emit
  Closed s := s.isOpen = false ∧ c.Closed s.child
  starts := by
    rintro ⟨s, isOpen⟩ ⟨rfl, hready⟩
    refine starts_iff.mpr (Leaves.congr (x := fun n => do
      onChild (child.openIter n)
      modify (fun s => { s with isOpen := true })) (fun _ => rfl) ?_)
    refine (starts_iff.mp (c.starts hready)).zoom.bind ?_
    rintro t _ - ⟨s', rfl, hat⟩
    exact ⟨⟨s', true⟩, Ends.of_eq (fun _ => rfl), rfl, t, hat, rfl⟩
  answers := by
    rintro s u ⟨hopen, t, hat, rfl⟩
    exact hnext t s hopen hat
  rewinds := by
    rintro ⟨s, isOpen⟩ u hw ⟨rfl, t, hat, rfl⟩
    obtain ⟨t₀, s', hfirst, hs', hat'⟩ := c.rewinds hw hat
    have hrewind : Ends (rewind child) ⟨s, true⟩ (.ok () ⟨s', true⟩) :=
      Ends.congr (x := fun n => onChild (child.rewind n)) (fun _ => rfl) (Ends.zoom hs')
    refine ⟨t₀.filterMap emit, ⟨s', true⟩, ?_, hrewind, rfl, t₀, hat', rfl⟩
    rw [hfirst]
    rfl
  closes := by
    rintro ⟨s, isOpen⟩ h
    have hchild : c.Ready s ∨ (∃ t, c.At t s) ∨ c.Closed s := by
      obtain ⟨-, h⟩ | ⟨t, -, u, h, -⟩ | ⟨-, h⟩ := h
      · exact .inl h
      · exact .inr (.inl ⟨u, h⟩)
      · exact .inr (.inr h)
    obtain ⟨s', hs', hclosed⟩ := c.closes hchild
    exact ⟨⟨s', false⟩, Ends.bind (Ends.zoom hs') (Ends.of_eq (fun _ => rfl)), rfl, hclosed⟩

/-- A filter returns the tuples that pass its predicate. -/
def Filter.contract (predicate : ByteCodeExpr) :
    Contract (Filter.iter m predicate child) willRewind
      (first >>= fun t => .ok (t.filterMap (emit m predicate))) :=
  Unary.contract c (next m predicate child) (emit m predicate) (by
    rintro t ⟨s, isOpen⟩ rfl hat
    refine Answers.congr (x := loop .diverges (step m predicate child)) (fun _ => rfl) ?_
    dsimp only at hat
    -- the loop skips the tuples that do not pass
    induction t generalizing s with
    | done =>
      obtain ⟨s', hs', hat'⟩ := c.answers hat
      exact ⟨⟨s', true⟩, Ends.loop_done (Ends.bind (Ends.zoom hs') Ends.pure), rfl, _, hat', rfl⟩
    | fail e =>
      obtain ⟨s', hs'⟩ := c.answers hat
      exact ⟨_, Ends.loop_error (Ends.bind_error (Ends.zoom_error hs'))⟩
    | item a t ih =>
      obtain ⟨s', hs', hat'⟩ := c.answers hat
      rw [Pull.Trace.filterMap]
      cases hemit : emit m predicate a with
      | error e =>
        exact ⟨_, Ends.loop_error (Ends.bind (Ends.zoom hs') (Ends.lift_error hemit))⟩
      | ok b =>
        cases b with
        | none =>
          exact Answers.loop_again
            (Ends.bind (Ends.zoom hs') (Ends.lift hemit Ends.pure)) (ih s' hat')
        | some b =>
          exact ⟨⟨s', true⟩,
            Ends.loop_done (Ends.bind (Ends.zoom hs') (Ends.lift hemit Ends.pure)), rfl, t, hat', rfl⟩)

theorem Project.emit_ne_none (fields : List ByteCodeExpr) (t : Tuple) :
    emit m fields t ≠ .ok none := by
  unfold emit
  cases ByteCodeExpr.evalAll m.floats fields t with
  | error e => exact fun h => nomatch h
  | ok vals => exact fun h => nomatch h

/-- A projection returns the projected tuples. -/
def Project.contract (fields : List ByteCodeExpr) :
    Contract (Project.iter m fields child) willRewind
      (first >>= fun t => .ok (t.filterMap (emit m fields))) :=
  Unary.contract c (next m fields child) (emit m fields) (by
    rintro t ⟨s, isOpen⟩ rfl hat
    refine Answers.congr (x := fun n => Unary.onChild (child.next n) >>= fun
      | none => pure none
      | some t => attempt (emit m fields t)) (fun _ => rfl) ?_
    dsimp only at hat
    cases t with
    | done =>
      obtain ⟨s', hs', hat'⟩ := c.answers hat
      exact ⟨⟨s', true⟩, Ends.bind (Ends.zoom hs') Ends.pure, rfl, _, hat', rfl⟩
    | fail e =>
      obtain ⟨s', hs'⟩ := c.answers hat
      exact ⟨_, Ends.bind_error (Ends.zoom_error hs')⟩
    | item a t =>
      obtain ⟨s', hs', hat'⟩ := c.answers hat
      rw [Pull.Trace.filterMap]
      cases hemit : emit m fields a with
      | error e =>
        refine ⟨⟨s', true⟩, Ends.bind (Ends.zoom hs') (Ends.of_eq (fun _ => ?_))⟩
        dsimp only
        rw [hemit]
        rfl
      | ok b =>
        cases b with
        | none => exact absurd hemit (Project.emit_ne_none m fields a)
        | some b =>
          refine ⟨⟨s', true⟩, Ends.bind (Ends.zoom hs') (Ends.of_eq (fun _ => ?_)), rfl, t, hat',
            rfl⟩
          dsimp only
          rw [hemit]
          rfl)

end Unary

/-! ### Loop joins -/

section LoopJoin

variable {left : Operator σ} {right : Operator τ} {willRewind : Bool} {firstL firstR : Opening}
  (cl : Contract left willRewind firstL) (cr : Contract right true firstR)
  (test : Tuple → Tuple → Except ExecError Bool)

namespace LoopJoin

/-- The pairs of two traces that pass the test. -/
def rows (tl tr : Pull.Trace ExecError Tuple) : Pull.Trace ExecError Tuple :=
  tl.flatMap (fun l => tr.filterMap (emit test l))

/-- The rest of the pairs, from the current left tuple on. -/
def rest (full : Pull.Trace ExecError Tuple) (current : Option Tuple) (tl tr : Pull.Trace ExecError Tuple) :
    Pull.Trace ExecError Tuple :=
  match current with
  | none => .done
  | some l => (tr.filterMap (emit test l)).append (rows test tl full)

/-- The join is open and has a trace ahead. -/
def At (t : Pull.Trace ExecError Tuple) (s : LoopJoin σ τ) : Prop :=
  s.isOpen = true ∧ ∃ full tl tr, firstR = .ok full ∧ cl.At tl s.leftChild ∧ cr.At tr s.rightChild ∧
    t = rest test full s.currentTuple tl tr

variable {l : σ} {r : τ}

/-- The inner loop: if the loop goes on well at the end of the right child, it goes on well now. -/
theorem answers_right {full tl : Pull.Trace ExecError Tuple} (hfull : firstR = .ok full) {a : Tuple}
    (hl : cl.At tl l)
    (hend : ∀ r, cr.At .done r → Answers (loop .diverges (step test left right)) (At cl cr test)
      (rows test tl full) ⟨l, r, true, some a⟩) (tr : Pull.Trace ExecError Tuple) (hr : cr.At tr r)
    :
    Answers (loop .diverges (step test left right)) (At cl cr test) (rest test full (some a) tl tr)
      ⟨l, r, true, some a⟩ := by
  induction tr generalizing r with
  | done => exact hend r hr
  | fail e =>
    obtain ⟨r', hr'⟩ := cr.answers hr
    exact ⟨_, loop_error (Ends.get (bind_error (zoom_error hr')))⟩
  | item b tr ih =>
    obtain ⟨r', hr', hat⟩ := cr.answers hr
    rw [rest, Pull.Trace.filterMap]
    cases hemit : emit test a b with
    | error e =>
      exact ⟨_, loop_error (Ends.get (Ends.bind (Ends.zoom hr') (lift_error hemit)))⟩
    | ok t =>
      cases t with
      | none =>
        exact loop_again
          (Ends.get (Ends.bind (Ends.zoom hr') (Ends.lift hemit Ends.pure))) (ih hat)
      | some t =>
        exact ⟨⟨l, r', true, some a⟩,
          loop_done (Ends.get (Ends.bind (Ends.zoom hr') (Ends.lift hemit Ends.pure))), rfl,
          full, tl, tr, hfull, hl, hat, rfl⟩

/-- The round at the end of the right child: it is rewound and the left child goes on. -/
theorem step_end {r' r'' : τ} {l' : σ} {a : Tuple} {current : Option Tuple}
    (hend : Ends right.next r (.ok none r')) (hrewind : Ends right.rewind r' (.ok () r''))
    (hnext : Ends left.next l (.ok current l')) :
    Ends (step test left right) ⟨l, r, true, some a⟩ (.ok none ⟨l', r'', true, current⟩) :=
  Ends.get (Ends.bind (Ends.zoom hend) (Ends.bind (Ends.zoom hrewind) (Ends.bind (Ends.zoom hnext)
    (of_eq (fun _ => rfl)))))

/-- The loop runs through the right child for every left tuple. -/
theorem answers_loop {full : Pull.Trace ExecError Tuple} (hfull : firstR = .ok full)
    (tl tr : Pull.Trace ExecError Tuple) {current : Option Tuple} (hl : cl.At tl l)
    (hr : cr.At tr r) :
    Answers (loop .diverges (step test left right)) (At cl cr test) (rest test full current tl tr)
      ⟨l, r, true, current⟩ := by
  have hnone : ∀ {tl tr l r}, cl.At tl l → cr.At tr r → Answers (loop .diverges (step test left right))
      (At cl cr test) .done ⟨l, r, true, none⟩ := fun {tl tr _ _} hl hr =>
    ⟨_, loop_done (of_eq (fun _ => rfl)), rfl, full, tl, tr, hfull, hl, hr, rfl⟩
  cases current with
  | none => exact hnone hl hr
  | some a =>
    induction tl generalizing tr a l r with
    | done =>
      refine answers_right cl cr test hfull hl (fun r hr => ?_) tr hr
      obtain ⟨r', hend, hr'⟩ := cr.answers hr
      obtain ⟨u, r'', hu, hrewind, hr''⟩ := cr.rewinds rfl hr'
      obtain ⟨l', hl', hat⟩ := cl.answers hl
      exact loop_again (step_end test hend hrewind hl') (hnone hat hr'')
    | fail e =>
      refine answers_right cl cr test hfull hl (fun r hr => ?_) tr hr
      obtain ⟨r', hend, hr'⟩ := cr.answers hr
      obtain ⟨u, r'', hu, hrewind, hr''⟩ := cr.rewinds rfl hr'
      obtain ⟨l', hl'⟩ := cl.answers hl
      exact ⟨_, loop_error (Ends.get (Ends.bind (Ends.zoom hend) (Ends.bind (Ends.zoom hrewind)
        (bind_error (zoom_error hl')))))⟩
    | item a' tl ih =>
      refine answers_right cl cr test hfull hl (fun r hr => ?_) tr hr
      obtain ⟨r', hend, hr'⟩ := cr.answers hr
      obtain ⟨u, r'', hu, hrewind, hr''⟩ := cr.rewinds rfl hr'
      obtain ⟨l', hl', hat⟩ := cl.answers hl
      cases hfull.symm.trans hu
      exact loop_again (step_end test hend hrewind hl') (ih full hat hr'' a')

/-- After the children are at their starts, the first left tuple is read. -/
theorem at_first {tl tr : Pull.Trace ExecError Tuple} (hfirst : firstR = .ok tr) (hl : cl.At tl l)
    (hr : cr.At tr r) {rows' : Pull.Trace ExecError Tuple}
    (hrows : openingOn tl (rows test tl tr) = .ok rows') :
    ∃ current l', Ends left.next l (.ok current l') ∧ At cl cr test rows' ⟨l', r, true, current⟩ := by
  cases tl with
  | fail e => cases hrows
  | done =>
    cases hrows
    obtain ⟨l', hl', hat⟩ := cl.answers hl
    exact ⟨none, l', hl', rfl, tr, _, tr, hfirst, hat, hr, rfl⟩
  | item a tl =>
    cases hrows
    obtain ⟨l', hl', hat⟩ := cl.answers hl
    exact ⟨some a, l', hl', rfl, tr, tl, tr, hfirst, hat, hr, rfl⟩

/-- A loop join returns the pairs that pass its test. -/
def contract (closed : ExecError) (rewind' : Method (LoopJoin σ τ) Unit)
    (hrewind : ∀ n s, s.isOpen = true → rewind' n s = rewind left right n s) :
    Contract ⟨configure left right, openIter left right, next closed test left right,
      close left right, rewind'⟩ willRewind
      (firstL >>= fun tl => firstR >>= fun tr => openingOn tl (rows test tl tr)) where
  Ready s := s.isOpen = false ∧ cl.Ready s.leftChild ∧ cr.Ready s.rightChild
  At t s := At cl cr test t s ∧ ∃ tl, firstL = .ok tl ∧ ∀ e, tl ≠ .fail e
  Closed s := s.isOpen = false ∧ cl.Closed s.leftChild ∧ cr.Closed s.rightChild
  starts := by
    rintro ⟨l, r, isOpen, current⟩ ⟨rfl, hl, hr⟩
    refine starts_iff.mpr (Leaves.congr (x := fun n => do
      onLeft (left.openIter n)
      onRight (right.openIter n)
      let t ← onLeft (left.next n)
      modify (fun s => { s with currentTuple := t, isOpen := true })) (fun _ => rfl) ?_)
    refine (starts_iff.mp (cl.starts hl)).zoom.bind ?_
    rintro tl _ hfl ⟨l', rfl, hatl⟩
    have hr : cr.Ready r := hr
    refine (starts_iff.mp (cr.starts hr)).zoom.bind ?_
    rintro tr _ hfr ⟨r', rfl, hatr⟩
    cases hrows : openingOn tl (rows test tl tr) with
    | error e =>
      obtain rfl := eq_fail_of_openingOn hrows
      obtain ⟨l'', hl''⟩ := cl.answers hatl
      exact ⟨_, Ends.bind_error (Ends.zoom_error hl'')⟩
    | ok rows' =>
      obtain ⟨current, l'', hl'', hat⟩ := at_first cl cr test hfr hatl hatr hrows
      exact ⟨⟨l'', r', true, current⟩, Ends.bind (Ends.zoom hl'') (Ends.of_eq (fun _ => rfl)), hat, tl,
        hfl, ne_fail_of_openingOn hrows⟩
  answers := by
    rintro ⟨l, r, isOpen, current⟩ t ⟨⟨rfl, full, tl, tr, hfull, hl, hr, rfl⟩, hfirst⟩
    refine Answers.congr (x := loop .diverges (step test left right)) (fun _ => rfl) ?_
    exact (answers_loop cl cr test hfull tl tr hl hr).mono (fun t s h => ⟨h, hfirst⟩)
  rewinds := by
    rintro ⟨l, r, isOpen, current⟩ t hw ⟨⟨rfl, full, tl, tr, hfull, hl, hr, rfl⟩, tl₀, hfl, hne⟩
    obtain ⟨tl', l', hfl', hl', hatl⟩ := cl.rewinds hw hl
    obtain ⟨tr', r', hfr, hr', hatr⟩ := cr.rewinds rfl hr
    cases hfl.symm.trans hfl'
    have hrows := openingOn_of_ne_fail hne (rows test tl₀ tr')
    obtain ⟨current', l'', hl'', hat⟩ := at_first cl cr test hfr hatl hatr hrows
    refine ⟨rows test tl₀ tr', ⟨l'', r', true, current'⟩, ?_, ?_, hat, tl₀, hfl, hne⟩
    · rw [hfl, hfr]
      exact hrows
    · refine Ends.congr (x := rewind left right) (fun n => hrewind n _ rfl) ?_
      exact Ends.bind (Ends.zoom hl') (Ends.bind (Ends.zoom hr')
        (Ends.bind (Ends.zoom hl'') (Ends.of_eq (fun _ => rfl))))
  closes := by
    rintro ⟨l, r, isOpen, current⟩ h
    have hchildren : (cl.Ready l ∨ (∃ t, cl.At t l) ∨ cl.Closed l) ∧
        (cr.Ready r ∨ (∃ t, cr.At t r) ∨ cr.Closed r) := by
      obtain ⟨-, hl, hr⟩ | ⟨t, ⟨-, full, tl, tr, -, hl, hr, -⟩, -⟩ | ⟨-, hl, hr⟩ := h
      · exact ⟨.inl hl, .inl hr⟩
      · exact ⟨.inr (.inl ⟨tl, hl⟩), .inr (.inl ⟨tr, hr⟩)⟩
      · exact ⟨.inr (.inr hl), .inr (.inr hr)⟩
    obtain ⟨l', hl', hcl⟩ := cl.closes hchildren.1
    obtain ⟨r', hr', hcr⟩ := cr.closes hchildren.2
    exact ⟨⟨l', r', false, current⟩, Ends.bind (Ends.zoom hl') (Ends.bind (Ends.zoom hr')
      (Ends.of_eq (fun _ => rfl))), rfl, hcl, hcr⟩

end LoopJoin

/-- A cross join returns all pairs. -/
def CrossJoin.contract : Contract (CrossJoin.iter left right) willRewind
    (firstL >>= fun tl => firstR >>= fun tr =>
      openingOn tl (LoopJoin.rows (fun _ _ => .ok true) tl tr)) :=
  LoopJoin.contract cl cr _ _ (LoopJoin.rewind left right) (fun _ _ _ => rfl)

/-- A nested loop join returns the pairs that satisfy its condition. -/
def NestedLoopJoin.contract (op : BinaryOp) (leftExpr rightExpr : ByteCodeExpr) :
    Contract (NestedLoopJoin.iter m op leftExpr rightExpr left right) willRewind
      (firstL >>= fun tl => firstR >>= fun tr =>
        openingOn tl (LoopJoin.rows (NestedLoopJoin.test m op leftExpr rightExpr) tl tr)) :=
  LoopJoin.contract cl cr _ _ (rewind left right) (fun n s hs => by
    simp only [rewind, get_bind, hs, require_true])

end LoopJoin

/-! ### Hash join -/

namespace HashEqJoin

variable {left : Operator σ} {right : Operator τ} {willRewind : Bool} {firstL firstR : Opening}
  (cl : Contract left false firstL) (cr : Contract right willRewind firstR)
  (leftExpr rightExpr : ByteCodeExpr)

/-- The matches of a right tuple, from a place in its bucket on. -/
def probeFrom (joinMap : List (Field × List Tuple)) (i : ℕ) (r : Tuple) : Pull.Trace ExecError Tuple :=
  match rightExpr.eval m.floats r with
  | .error e => .fail e
  | .ok key => .ofList (((bucket joinMap key).drop i).map (fun l => l.merge r))

/-- The matches of the right tuples. -/
def rows (joinMap : List (Field × List Tuple)) (tr : Pull.Trace ExecError Tuple) : Pull.Trace ExecError Tuple :=
  tr.flatMap (probeFrom m rightExpr joinMap 0)

/-- The rest of the matches, from the current right tuple on. -/
def rest (joinMap : List (Field × List Tuple)) (current : Option Tuple) (i : ℕ)
    (tr : Pull.Trace ExecError Tuple) : Pull.Trace ExecError Tuple :=
  match current with
  | none => .done
  | some r => (probeFrom m rightExpr joinMap i r).append (rows m rightExpr joinMap tr)

/-- The join is open and has a trace ahead. -/
def At (t : Pull.Trace ExecError Tuple) (s : HashEqJoin σ τ) : Prop :=
  s.isOpen = true ∧ (firstL >>= fun tl => tl.fold (insert m leftExpr) []) = .ok s.joinMap ∧
    (∃ tl, cl.At tl s.leftChild) ∧
    ∃ tr, cr.At tr s.rightChild ∧ t = rest m rightExpr s.joinMap s.currentTuple s.currentIdx tr

variable {l : σ} {r : τ} {joinMap : List (Field × List Tuple)} {i : ℕ}

/-- The round at the end of a bucket: the right child goes on. -/
theorem step_end {r' : τ} {a : Tuple} {key : Field} {current : Option Tuple}
    (hkey : rightExpr.eval m.floats a = .ok key) (hend : (bucket joinMap key)[i]? = none)
    (hnext : Ends right.next r (.ok current r')) :
    Ends (step m rightExpr right) ⟨l, r, true, joinMap, some a, i⟩
      (.ok none ⟨l, r', true, joinMap, current, 0⟩) := by
  refine Ends.get (Ends.lift hkey ?_)
  dsimp only
  rw [hend]
  exact Ends.bind (Ends.zoom hnext) (of_eq (fun _ => rfl))

section

variable (hmap : (firstL >>= fun tl => tl.fold (insert m leftExpr) []) = .ok joinMap)
include hmap

/-- The bucket of the current tuple: if the loop goes on well at its end, it goes on well now. -/
theorem answers_bucket {a : Tuple} {tr : Pull.Trace ExecError Tuple}
    (hl : ∃ tl, cl.At tl l) (hr : cr.At tr r)
    (hend : ∀ key, rightExpr.eval m.floats a = .ok key → (bucket joinMap key)[i]? = none →
      Answers (loop .diverges (step m rightExpr right)) (At m cl cr leftExpr rightExpr)
        (rows m rightExpr joinMap tr) ⟨l, r, true, joinMap, some a, i⟩) :
    Answers (loop .diverges (step m rightExpr right)) (At m cl cr leftExpr rightExpr)
      (rest m rightExpr joinMap (some a) i tr) ⟨l, r, true, joinMap, some a, i⟩ := by
  cases hkey : rightExpr.eval m.floats a with
  | error e =>
    simp only [rest, probeFrom, hkey]
    exact ⟨_, loop_error (Ends.get (lift_error hkey))⟩
  | ok key =>
    cases hmatch : (bucket joinMap key)[i]? with
    | none =>
      have hdrop : (bucket joinMap key).drop i = [] :=
        List.drop_eq_nil_of_le (List.getElem?_eq_none_iff.mp hmatch)
      have hrest : rest m rightExpr joinMap (some a) i tr = rows m rightExpr joinMap tr := by
        simp only [rest, probeFrom, hkey, hdrop]
        rfl
      rw [hrest]
      exact hend key hkey hmatch
    | some b =>
      have hrest : rest m rightExpr joinMap (some a) i tr =
          .item (b.merge a) (rest m rightExpr joinMap (some a) (i + 1) tr) := by
        simp only [rest, probeFrom, hkey]
        rw [List.drop_eq_getElem?_toList_append, hmatch]
        rfl
      rw [hrest]
      refine ⟨⟨l, r, true, joinMap, some a, i + 1⟩, loop_done (Ends.get (Ends.lift hkey ?_)),
        rfl, hmap, hl, tr, hr, rfl⟩
      dsimp only
      rw [hmatch]
      exact of_eq (fun _ => rfl)

/-- The loop runs through the bucket of every right tuple. -/
theorem answers_loop (hl : ∃ tl, cl.At tl l) (tr : Pull.Trace ExecError Tuple) {current : Option Tuple}
    (hr : cr.At tr r) :
    Answers (loop .diverges (step m rightExpr right)) (At m cl cr leftExpr rightExpr)
      (rest m rightExpr joinMap current i tr) ⟨l, r, true, joinMap, current, i⟩ := by
  have hnone : ∀ {tr r i}, cr.At tr r → Answers (loop .diverges (step m rightExpr right))
      (At m cl cr leftExpr rightExpr) .done ⟨l, r, true, joinMap, none, i⟩ := fun {tr _ _} hr =>
    ⟨_, loop_done (of_eq (fun _ => rfl)), rfl, hmap, hl, tr, hr, rfl⟩
  cases current with
  | none => exact hnone hr
  | some a =>
    induction tr generalizing a i r with
    | done =>
      refine answers_bucket m cl cr leftExpr rightExpr hmap hl hr (fun key hkey hend => ?_)
      obtain ⟨r', hr', hat⟩ := cr.answers hr
      exact loop_again (step_end m rightExpr hkey hend hr') (hnone hat)
    | fail e =>
      refine answers_bucket m cl cr leftExpr rightExpr hmap hl hr (fun key hkey hend => ?_)
      obtain ⟨r', hr'⟩ := cr.answers hr
      refine ⟨⟨l, r', true, joinMap, some a, i⟩, loop_error (Ends.get (Ends.lift hkey ?_))⟩
      dsimp only
      rw [hend]
      exact bind_error (zoom_error hr')
    | item b tr ih =>
      refine answers_bucket m cl cr leftExpr rightExpr hmap hl hr (fun key hkey hend => ?_)
      obtain ⟨r', hr', hat⟩ := cr.answers hr
      exact loop_again (step_end m rightExpr hkey hend hr') (ih hat b)

/-- After the right child is at its start, its first tuple is read. -/
theorem at_first {tr : Pull.Trace ExecError Tuple}
    (hl : ∃ tl, cl.At tl l) (hr : cr.At tr r) {rows' : Pull.Trace ExecError Tuple}
    (hrows : openingOn tr (rows m rightExpr joinMap tr) = .ok rows') :
    ∃ current r', Ends right.next r (.ok current r') ∧
      At m cl cr leftExpr rightExpr rows' ⟨l, r', true, joinMap, current, 0⟩ := by
  cases tr with
  | fail e => cases hrows
  | done =>
    cases hrows
    obtain ⟨r', hr', hat⟩ := cr.answers hr
    exact ⟨none, r', hr', rfl, hmap, hl, _, hat, rfl⟩
  | item a tr =>
    cases hrows
    obtain ⟨r', hr', hat⟩ := cr.answers hr
    exact ⟨some a, r', hr', rfl, hmap, hl, tr, hat, rfl⟩

end

/-- A hash join returns the pairs with equal keys. -/
def contract : Contract (iter m leftExpr rightExpr left right) willRewind
    ((firstL >>= fun tl => tl.fold (insert m leftExpr) []) >>= fun joinMap =>
      firstR >>= fun tr => openingOn tr (rows m rightExpr joinMap tr)) where
  Ready s := s.isOpen = false ∧ s.joinMap = [] ∧ cl.Ready s.leftChild ∧ cr.Ready s.rightChild
  At t s := At m cl cr leftExpr rightExpr t s ∧ ∃ tr, firstR = .ok tr ∧ ∀ e, tr ≠ .fail e
  Closed s := s.isOpen = false ∧ s.joinMap = [] ∧ cl.Closed s.leftChild ∧ cr.Closed s.rightChild
  starts := by
    rintro ⟨l, r, isOpen, joinMap, current, i⟩ ⟨rfl, rfl, hl, hr⟩
    refine starts_iff.mpr (Leaves.congr (x := fun n => do
      onLeft (left.openIter n)
      drain .diverges HashEqJoin.leftChild (fun t s => { s with leftChild := t }) left.next
        (absorb m leftExpr) n
      onRight (right.openIter n)
      let t ← onRight (right.next n)
      modify (fun s => { s with currentTuple := t, currentIdx := 0, isOpen := true }))
      (fun _ => rfl) ?_)
    rw [bind_assoc]
    refine (starts_iff.mp (cl.starts hl)).zoom.bind ?_
    rintro tl _ hfl ⟨l', rfl, hatl⟩
    refine (cl.drain (k := fun joinMap l => (⟨l, r, false, joinMap, current, i⟩ : HashEqJoin σ τ))
      (fun _ _ => rfl) (fun _ _ _ => rfl) (fun _ _ _ => rfl) tl hatl).bind ?_
    rintro joinMap _ hmap ⟨l'', rfl, hat⟩
    have hr : cr.Ready r := hr
    refine (starts_iff.mp (cr.starts hr)).zoom.bind ?_
    rintro tr _ hfr ⟨r', rfl, hatr⟩
    cases hrows : openingOn tr (rows m rightExpr joinMap tr) with
    | error e =>
      obtain rfl := eq_fail_of_openingOn hrows
      obtain ⟨r'', hr''⟩ := cr.answers hatr
      exact ⟨_, Ends.bind_error (Ends.zoom_error hr'')⟩
    | ok rows' =>
      have hmap' : (firstL >>= fun tl => tl.fold (insert m leftExpr) []) = .ok joinMap := by
        rw [hfl]
        exact hmap
      obtain ⟨current', r'', hr'', hat'⟩ :=
        at_first m cl cr leftExpr rightExpr hmap' ⟨_, hat⟩ hatr hrows
      exact ⟨⟨l'', r'', true, joinMap, current', 0⟩, Ends.bind (Ends.zoom hr'')
        (Ends.of_eq (fun _ => rfl)), hat', tr, hfr, ne_fail_of_openingOn hrows⟩
  answers := by
    rintro ⟨l, r, isOpen, joinMap, current, i⟩ t ⟨⟨rfl, hmap, hl, tr, hr, rfl⟩, hfirst⟩
    refine Answers.congr (x := loop .diverges (step m rightExpr right)) (fun _ => rfl) ?_
    exact (answers_loop m cl cr leftExpr rightExpr hmap hl tr hr).mono (fun t s h => ⟨h, hfirst⟩)
  rewinds := by
    rintro ⟨l, r, isOpen, joinMap, current, i⟩ t hw ⟨⟨rfl, hmap, hl, tr, hr, rfl⟩, tr₀, hfr, hne⟩
    obtain ⟨tr', r', hfr', hr', hatr⟩ := cr.rewinds hw hr
    cases hfr.symm.trans hfr'
    have hrows := openingOn_of_ne_fail hne (rows m rightExpr joinMap tr₀)
    obtain ⟨current', r'', hr'', hat⟩ := at_first m cl cr leftExpr rightExpr hmap hl hatr hrows
    refine ⟨rows m rightExpr joinMap tr₀, ⟨l, r'', true, joinMap, current', 0⟩, ?_, ?_, hat, tr₀, hfr,
      hne⟩
    · rw [hmap, hfr]
      exact hrows
    · refine Ends.congr (x := fun n => do
        onRight (right.rewind n)
        let t ← onRight (right.next n)
        modify (fun s => { s with currentTuple := t, currentIdx := 0 })) (fun _ => rfl) ?_
      exact Ends.bind (Ends.zoom hr') (Ends.bind (Ends.zoom hr'') (Ends.of_eq (fun _ => rfl)))
  closes := by
    rintro ⟨l, r, isOpen, joinMap, current, i⟩ h
    have hchildren : (cl.Ready l ∨ (∃ t, cl.At t l) ∨ cl.Closed l) ∧
        (cr.Ready r ∨ (∃ t, cr.At t r) ∨ cr.Closed r) := by
      obtain ⟨-, -, hl, hr⟩ | ⟨t, ⟨-, -, hl, tr, hr, -⟩, -⟩ | ⟨-, -, hl, hr⟩ := h
      · exact ⟨.inl hl, .inl hr⟩
      · exact ⟨.inr (.inl hl), .inr (.inl ⟨tr, hr⟩)⟩
      · exact ⟨.inr (.inr hl), .inr (.inr hr)⟩
    obtain ⟨l', hl', hcl⟩ := cl.closes hchildren.1
    obtain ⟨r', hr', hcr⟩ := cr.closes hchildren.2
    exact ⟨⟨l', r', false, [], none, 0⟩, Ends.bind (Ends.zoom hl') (Ends.bind (Ends.zoom hr')
      (Ends.of_eq (fun _ => rfl))), rfl, rfl, hcl, hcr⟩

end HashEqJoin

/-! ### Sort and aggregate -/

/-- The tuples of an operator with their keys, sorted. -/
def readSorted (exprs : List (ByteCodeExpr × Bool)) (ascs : List Bool) (first : Opening) :
    Except ExecError (List Keyed) :=
  (first >>= fun t => t.fold (pushKeyed m exprs) []) >>= fun data => .ok (sortByKey ascs data)

theorem readSorted_bind (exprs : List (ByteCodeExpr × Bool)) (ascs : List Bool) (first : Opening)
    (g : List Keyed → Opening) :
    (readSorted m exprs ascs first >>= g) =
      (first >>= fun t => t.fold (pushKeyed m exprs) [] >>= fun data => g (sortByKey ascs data)) := by
  simp only [readSorted, bind_assoc]
  rfl

theorem readSorted_of_fold {exprs : List (ByteCodeExpr × Bool)} {first : Opening}
    {data : List Keyed} (ascs : List Bool) (hfirst : first = .ok t)
    (hdata : t.fold (pushKeyed m exprs) [] = .ok data) :
    readSorted m exprs ascs first = .ok (sortByKey ascs data) := by
  rw [readSorted, hfirst]
  change (t.fold (pushKeyed m exprs) [] >>= _) = _
  rw [hdata]
  rfl

theorem length_sortByKey (ascs : List Bool) (data : List Keyed) :
    (sortByKey ascs data).length = data.length :=
  (List.perm_insertionSort _ data).length_eq

namespace SortOp

variable {child : Operator σ} {willRewind : Bool} {first : Opening} (c : Contract child false first)
  (fields : List (ByteCodeExpr × Bool))

/-- A sort returns the tuples of its child, last in the reverse order first. -/
def contract : Contract (iter m fields child) willRewind
    (readSorted m fields (fields.map (fun f => !f.2)) first >>= fun data =>
      .ok (Pull.Trace.ofList (data.reverse.map Prod.snd))) where
  Ready s := s.isOpen = false ∧ s.willRewind = willRewind ∧ s.sortedData = [] ∧ c.Ready s.child
  At t s := s.isOpen = true ∧ s.willRewind = willRewind ∧ c.Closed s.child ∧
    (willRewind = true →
      readSorted m fields (fields.map (fun f => !f.2)) first = .ok s.sortedData ∧ s.index ≤ s.sortedData.length) ∧
    t = Pull.Trace.ofList ((backlog s.willRewind s.sortedData s.index).map Prod.snd)
  Closed s := s.isOpen = false ∧ s.willRewind = willRewind ∧ s.sortedData = [] ∧ c.Closed s.child
  starts := by
    rintro ⟨s, willRewind, isOpen, data, i⟩ ⟨rfl, rfl, rfl, hs⟩
    refine starts_iff.mpr (Leaves.congr (x := fun n => do
      onChild (child.openIter n)
      drain .diverges SortOp.child (fun t s => { s with child := t }) child.next (absorb m fields) n
      onChild (child.close n)
      modify (fun s =>
        { s with sortedData := sortByKey (fields.map (fun f => !f.2)) s.sortedData
                 index := s.sortedData.length
                 isOpen := true })) (fun _ => rfl) ?_)
    rw [readSorted_bind]
    refine (starts_iff.mp (c.starts hs)).zoom.bind ?_
    rintro t _ hfirst ⟨s', rfl, hat⟩
    refine (c.drain (k := fun data s => (⟨s, willRewind, false, data, i⟩ : SortOp σ)) (fun _ _ => rfl)
      (fun _ _ _ => rfl) (fun _ _ _ => rfl) t hat).bind ?_
    rintro data _ hdata ⟨s'', rfl, hdone⟩
    obtain ⟨s₃, hclose, hclosed⟩ := c.closes (.inr (.inl ⟨_, hdone⟩))
    refine ⟨⟨s₃, willRewind, true, sortByKey (fields.map (fun f => !f.2)) data, data.length⟩,
      Ends.bind (Ends.zoom hclose) (Ends.of_eq (fun _ => rfl)), rfl, rfl, hclosed,
      fun _ => ⟨readSorted_of_fold m _ hfirst hdata, (length_sortByKey _ data).ge⟩, ?_⟩
    dsimp only [backlog]
    rw [← length_sortByKey (fields.map (fun f => !f.2)) data, List.take_length, ite_self]
  answers := by
    rintro ⟨s, willRewind, isOpen, data, i⟩ t ⟨rfl, rfl, hs, hkept, rfl⟩
    dsimp only at hkept ⊢
    obtain ⟨data', i', htake, hback, hkeeps⟩ :=
      takeBack_spec willRewind data i (fun h => (hkept h).2)
    refine Answers.of_head (u := ⟨s, willRewind, true, data', i'⟩) (Ends.of_eq (fun n => ?_))
      ⟨rfl, rfl, hs, fun h => ?_, ?_⟩
    · change next n _ = _
      simp only [next, get_bind, require_true, htake, List.head?_map]
      rfl
    · obtain ⟨rfl, hi⟩ := hkeeps h
      exact ⟨(hkept h).1, hi⟩
    · dsimp only
      rw [hback, List.map_tail]
  rewinds := by
    rintro ⟨s, willRewind, isOpen, data, i⟩ t rfl ⟨rfl, rfl, hs, hkept, -⟩
    have hdata := (hkept rfl).1
    refine ⟨Pull.Trace.ofList (data.reverse.map Prod.snd), ⟨s, true, true, data, data.length⟩, ?_,
      Ends.of_eq (fun _ => rfl), rfl, rfl, hs, fun _ => ⟨hdata, le_rfl⟩, ?_⟩
    · rw [hdata]
      rfl
    · dsimp only [backlog]
      rw [List.take_length, if_pos rfl]
  closes := by
    rintro ⟨s, willRewind', isOpen, data, i⟩ h
    have hchild : willRewind' = willRewind ∧ (c.Ready s ∨ (∃ t, c.At t s) ∨ c.Closed s) := by
      obtain ⟨-, hw, -, hs⟩ | ⟨t, -, hw, hs, -⟩ | ⟨-, hw, -, hs⟩ := h
      · exact ⟨hw, .inl hs⟩
      · exact ⟨hw, .inr (.inr hs)⟩
      · exact ⟨hw, .inr (.inr hs)⟩
    obtain ⟨rfl, hs⟩ := hchild
    obtain ⟨s', hs', hclosed⟩ := c.closes hs
    exact ⟨⟨s', willRewind', false, [], 0⟩, Ends.bind (Ends.zoom hs') (Ends.of_eq (fun _ => rfl)), rfl,
      rfl, rfl, hclosed⟩

end SortOp

namespace Aggregate

variable {child : Operator σ} {willRewind : Bool} {first : Opening} (c : Contract child false first)
  (groupbyExpr aggExpr : List ByteCodeExpr) (ops : List AggOp)

/-- The tuples of an aggregate. -/
def rows (first : Opening) : Except ExecError (List Tuple) :=
  (first >>= fun t => t.fold (mergeTupleIntoGroup m groupbyExpr aggExpr ops) []) >>= fun acc =>
    groupTuples m ops acc

theorem rows_bind (first : Opening) (g : List Tuple → Opening) :
    (rows m groupbyExpr aggExpr ops first >>= g) = (first >>= fun t =>
      t.fold (mergeTupleIntoGroup m groupbyExpr aggExpr ops) [] >>= fun acc =>
        groupTuples m ops acc >>= g) := by
  simp only [rows, bind_assoc]

/-- An aggregate returns a tuple for every group. -/
def contract : Contract (iter m groupbyExpr aggExpr ops child) willRewind
    (rows m groupbyExpr aggExpr ops first >>= fun tuples => .ok (Pull.Trace.ofList tuples)) where
  Ready s := s.isOpen = false ∧ s.willRewind = willRewind ∧ s.acc = [] ∧ s.accIter = [] ∧
    c.Ready s.child
  At t s := s.isOpen = true ∧ s.willRewind = willRewind ∧ (∃ u, c.At u s.child) ∧
    rows m groupbyExpr aggExpr ops first = .ok s.accIter ∧ t = Pull.Trace.ofList (s.accIter.drop s.index)
  Closed s := s.isOpen = false ∧ s.willRewind = willRewind ∧ s.acc = [] ∧ s.accIter = [] ∧
    c.Closed s.child
  starts := by
    rintro ⟨s, willRewind, isOpen, acc, accIter, i⟩ ⟨rfl, rfl, rfl, rfl, hs⟩
    refine starts_iff.mpr (Leaves.congr (x := fun n => do
      onChild (child.openIter n)
      drain .diverges Aggregate.child (fun t s => { s with child := t }) child.next
        (absorb m groupbyExpr aggExpr ops) n
      let s ← get
      let tuples ← attempt (groupTuples m ops s.acc)
      set { s with accIter := s.accIter ++ tuples, index := 0, isOpen := true }) (fun _ => rfl) ?_)
    rw [rows_bind]
    refine (starts_iff.mp (c.starts hs)).zoom.bind ?_
    rintro t _ hfirst ⟨s', rfl, hat⟩
    refine (c.drain (k := fun acc s => (⟨s, willRewind, false, acc, [], i⟩ : Aggregate σ))
      (fun _ _ => rfl) (fun _ _ _ => rfl) (fun _ _ _ => rfl) t hat).bind ?_
    rintro acc _ hacc ⟨s'', rfl, hdone⟩
    cases htuples : groupTuples m ops acc with
    | error e => exact ⟨_, Ends.get (Ends.lift_error htuples)⟩
    | ok tuples =>
      refine ⟨⟨s'', willRewind, true, acc, tuples, 0⟩,
        Ends.get (Ends.lift htuples (Ends.of_eq (fun _ => rfl))), rfl, rfl, ⟨_, hdone⟩, ?_, rfl⟩
      rw [rows, hfirst]
      change (t.fold (mergeTupleIntoGroup m groupbyExpr aggExpr ops) [] >>= _) = _
      rw [hacc]
      exact htuples
  answers := by
    rintro ⟨s, willRewind, isOpen, acc, accIter, i⟩ t ⟨rfl, rfl, hs, hrows, rfl⟩
    dsimp only at hs hrows ⊢
    cases hi : accIter[i]? with
    | none =>
      have hdrop : accIter.drop i = [] := List.drop_eq_nil_of_le (List.getElem?_eq_none_iff.mp hi)
      rw [hdrop]
      refine ⟨⟨s, willRewind, true, acc, accIter, i⟩, Ends.of_eq (fun n => ?_), rfl, rfl, hs, hrows,
        ?_⟩
      · change next n _ = _
        simp only [next, get_bind, require_true, hi]
        rfl
      · dsimp only
        rw [hdrop]
        rfl
    | some a =>
      rw [List.drop_eq_getElem?_toList_append, hi, Option.toList_some, List.singleton_append]
      refine ⟨⟨s, willRewind, true, acc, accIter, i + 1⟩, Ends.of_eq (fun n => ?_), rfl, rfl, hs,
        hrows, rfl⟩
      change next n _ = _
      simp only [next, get_bind, require_true, hi]
      rfl
  rewinds := by
    rintro ⟨s, willRewind, isOpen, acc, accIter, i⟩ t rfl ⟨rfl, rfl, hs, hrows, -⟩
    refine ⟨Pull.Trace.ofList accIter, ⟨s, true, true, acc, accIter, 0⟩, ?_, Ends.of_eq (fun _ => rfl), rfl,
      rfl, hs, hrows, rfl⟩
    rw [hrows]
    rfl
  closes := by
    rintro ⟨s, willRewind', isOpen, acc, accIter, i⟩ h
    have hchild : willRewind' = willRewind ∧ (c.Ready s ∨ (∃ t, c.At t s) ∨ c.Closed s) := by
      obtain ⟨-, hw, -, -, hs⟩ | ⟨t, -, hw, hs, -⟩ | ⟨-, hw, -, -, hs⟩ := h
      · exact ⟨hw, .inl hs⟩
      · exact ⟨hw, .inr (.inl hs)⟩
      · exact ⟨hw, .inr (.inr hs)⟩
    obtain ⟨rfl, hs⟩ := hchild
    obtain ⟨s', hs', hclosed⟩ := c.closes hs
    exact ⟨⟨s', willRewind', false, [], [], 0⟩, Ends.bind (Ends.zoom hs') (Ends.of_eq (fun _ => rfl)),
      rfl, rfl, rfl, rfl, hclosed⟩

end Aggregate

end CrustyDB
