import CrustyDB.Lib.Stateful

/-! # Pull iterators

An iterator is opened, asked for one item after the other, rewound and closed (`OpIterator`).  Its
methods may loop, so they are programs with a bound on the rounds of their loops (`Timed`), and
`Ends x s r` says that the program ends with the result `r` once the bound is large enough.

What an iterator returns is a `Trace`: items, then the end or an error.  `Contract` says that an
iterator follows a trace in one of its two modes: `Ready`, `At` and `Closed` are the states before
it is opened, between two items and after it is closed.  The contract of an operator is built from
the contracts of its children, and `Contract.replays` is what follows for a whole run: an
iterator that was rewound, or closed and opened again, returns the trace it returned at first. -/

namespace Pull

open Stateful List

variable {ε σ τ α β : Type}

/-! ### Programs with a bound -/

/-- A program that is given a bound on the rounds of its loops. -/
abbrev Timed (ε σ α : Type) := ℕ → EStateM ε σ α

/-- The program ends with this result if its bound is large enough. -/
def Ends (x : Timed ε σ α) (s : σ) (r : EStateM.Result ε σ α) : Prop := ∃ N, ∀ n, N ≤ n → x n s = r

/-- A program that fails or returns without touching the state. -/
def attempt (x : Except ε α) : EStateM ε σ α := fun s =>
  match x with
  | .ok a => .ok a s
  | .error e => .error e s

/-- A program on a part of the state. -/
def zoom (part : σ → τ) (put : τ → σ → σ) (x : EStateM ε τ α) : EStateM ε σ α := fun s =>
  match x (part s) with
  | .ok a t => .ok a (put t s)
  | .error e t => .error e (put t s)

theorem get_bind (f : σ → EStateM ε σ β) (s : σ) : (get >>= f) s = f s s := rfl

theorem set_bind (f : PUnit → EStateM ε σ β) (s s' : σ) : (set s' >>= f) s = f () s' := rfl

/-- Repeat the body until it returns a value. -/
def loop (out : ε) (body : Timed ε σ (Option β)) : Timed ε σ β
  | 0 => throw out
  | n + 1 => do
    match ← body n with
    | some b => pure b
    | none => loop out body n

/-- Take in all items of an iterator in a part of the state. -/
def drain (out : ε) (part : σ → τ) (put : τ → σ → σ) (next : Timed ε τ (Option α))
    (absorb : α → EStateM ε σ Unit) : Timed ε σ Unit :=
  loop out (fun n => do
    match ← zoom part put (next n) with
    | none => pure (some ())
    | some a => do
      absorb a
      pure none)

/-- Collect the items of an iterator behind those that were collected before. -/
def gather (out : ε) (next : Timed ε σ (Option α)) : List α → Timed ε σ (List α)
  | _, 0 => throw out
  | items, n + 1 => do
    match ← next n with
    | none => pure items
    | some a => gather out next (items ++ [a]) n

namespace Ends

variable {x : Timed ε σ α} {f : ℕ → α → EStateM ε σ β} {s s' : σ} {r r' : EStateM.Result ε σ α}
  {q : EStateM.Result ε σ β} {a : α} {b : β} {e : ε}

theorem of_eq (h : ∀ n, x n s = r) : Ends x s r := ⟨0, fun n _ => h n⟩

/-- The bound of a program that takes a step counts one more. -/
theorem of_succ (N : ℕ) (h : ∀ n, N ≤ n → x (n + 1) s = r) : Ends x s r := by
  refine ⟨N + 1, fun n hn => ?_⟩
  obtain ⟨m, rfl⟩ : ∃ m, n = m + 1 := ⟨n - 1, by omega⟩
  exact h m (by omega)

theorem congr {y : Timed ε σ α} (hxy : ∀ n, y n s = x n s) (h : Ends x s r) : Ends y s r := by
  obtain ⟨N, hN⟩ := h
  exact ⟨N, fun n hn => (hxy n).trans (hN n hn)⟩

theorem unique (h : Ends x s r) (h' : Ends x s r') : r = r' := by
  obtain ⟨N, hN⟩ := h
  obtain ⟨M, hM⟩ := h'
  rw [← hN (max N M) (le_max_left N M), hM (max N M) (le_max_right N M)]

theorem bind (h : Ends x s (.ok a s')) (hf : Ends (fun n => f n a) s' q) :
    Ends (fun n => x n >>= f n) s q := by
  obtain ⟨N, hN⟩ := h
  obtain ⟨M, hM⟩ := hf
  refine ⟨max N M, fun n hn => ?_⟩
  dsimp only
  rw [bind_of_ok (hN n (le_trans (le_max_left N M) hn))]
  exact hM n (le_trans (le_max_right N M) hn)

theorem bind_error (h : Ends x s (.error e s')) : Ends (fun n => x n >>= f n) s (.error e s') := by
  obtain ⟨N, hN⟩ := h
  exact ⟨N, fun n hn => bind_of_error (hN n hn)⟩

theorem pure : Ends (fun _ => Pure.pure a : Timed ε σ α) s (.ok a s) := of_eq (fun _ => rfl)

theorem get {f : ℕ → σ → EStateM ε σ β} (h : Ends (fun n => f n s) s q) :
    Ends (fun n => MonadState.get >>= f n) s q := h

theorem modify {g : σ → σ} {f : ℕ → Unit → EStateM ε σ β} (h : Ends (fun n => f n ()) (g s) q) :
    Ends (fun n => (modify g : EStateM ε σ Unit) >>= f n) s q := h

theorem lift {y : Except ε α} (hy : y = .ok a) (h : Ends (fun n => f n a) s q) :
    Ends (fun n => attempt y >>= f n) s q := by
  subst hy
  exact h

theorem lift_error {y : Except ε α} (hy : y = .error e) :
    Ends (fun n => attempt y >>= f n) s (.error e s) := by
  subst hy
  exact of_eq (fun _ => rfl)

/-- A call of a part of the state. -/
theorem zoom {part : σ → τ} {put : τ → σ → σ} {y : Timed ε τ α} {t : τ}
    (h : Ends y (part s) (.ok a t)) : Ends (fun n => Pull.zoom part put (y n)) s (.ok a (put t s)) := by
  obtain ⟨N, hN⟩ := h
  refine ⟨N, fun n hn => ?_⟩
  simp only [Pull.zoom, hN n hn]

theorem zoom_error {part : σ → τ} {put : τ → σ → σ} {y : Timed ε τ α} {t : τ}
    (h : Ends y (part s) (.error e t)) :
    Ends (fun n => Pull.zoom part put (y n)) s (.error e (put t s)) := by
  obtain ⟨N, hN⟩ := h
  refine ⟨N, fun n hn => ?_⟩
  simp only [Pull.zoom, hN n hn]

section Loop

variable {out : ε} {body : Timed ε σ (Option β)}

theorem loop_done (h : Ends body s (.ok (some b) s')) : Ends (loop out body) s (.ok b s') := by
  obtain ⟨N, hN⟩ := h
  refine of_succ N (fun n hn => ?_)
  rw [loop, bind_of_ok (hN n (by omega))]
  rfl

theorem loop_error (h : Ends body s (.error e s')) : Ends (loop out body) s (.error e s') := by
  obtain ⟨N, hN⟩ := h
  refine of_succ N (fun n hn => ?_)
  rw [loop, bind_of_error (hN n (by omega))]

theorem loop_again (h : Ends body s (.ok none s')) (h' : Ends (loop out body) s' q) :
    Ends (loop out body) s q := by
  obtain ⟨N, hN⟩ := h
  obtain ⟨M, hM⟩ := h'
  refine of_succ (max N M) (fun n hn => ?_)
  rw [loop, bind_of_ok (hN n (by omega))]
  exact hM n (by omega)

end Loop

section Gather

variable {out : ε} {next : Timed ε σ (Option α)} {items : List α}

theorem gather_done (h : Ends next s (.ok none s')) : Ends (gather out next items) s (.ok items s') := by
  obtain ⟨N, hN⟩ := h
  refine of_succ N (fun n hn => ?_)
  rw [gather, bind_of_ok (hN n (by omega))]
  rfl

theorem gather_error (h : Ends next s (.error e s')) :
    Ends (gather out next items) s (.error e s') := by
  obtain ⟨N, hN⟩ := h
  refine of_succ N (fun n hn => ?_)
  rw [gather, bind_of_error (hN n (by omega))]

theorem gather_item {q : EStateM.Result ε σ (List α)} (h : Ends next s (.ok (some a) s'))
    (h' : Ends (gather out next (items ++ [a])) s' q) : Ends (gather out next items) s q := by
  obtain ⟨N, hN⟩ := h
  obtain ⟨M, hM⟩ := h'
  refine of_succ (max N M) (fun n hn => ?_)
  rw [gather, bind_of_ok (hN n (by omega))]
  exact hM n (by omega)

end Gather

end Ends

/-! ### Traces -/

/-- What an iterator returns: items, and then the end or an error. -/
inductive Trace (ε α : Type) where
  | done
  | fail (e : ε)
  | item (a : α) (rest : Trace ε α)

namespace Trace

def ofList : List α → Trace ε α
  | [] => done
  | a :: l => item a (ofList l)

def append : Trace ε α → Trace ε α → Trace ε α
  | done, u => u
  | fail e, _ => fail e
  | item a t, u => item a (append t u)

/-- Keep and change items; the first failure ends the trace. -/
def filterMap (f : α → Except ε (Option β)) : Trace ε α → Trace ε β
  | done => done
  | fail e => fail e
  | item a t =>
    match f a with
    | .error e => fail e
    | .ok none => filterMap f t
    | .ok (some b) => item b (filterMap f t)

def flatMap (f : α → Trace ε β) : Trace ε α → Trace ε β
  | done => done
  | fail e => fail e
  | item a t => (f a).append (flatMap f t)

/-- Read all items into an accumulator. -/
def fold (f : β → α → Except ε β) : β → Trace ε α → Except ε β
  | b, done => .ok b
  | _, fail e => .error e
  | b, item a t =>
    match f b a with
    | .error e => .error e
    | .ok b' => fold f b' t

/-- All items, or the error that ends them. -/
def items : Trace ε α → Except ε (List α)
  | done => .ok []
  | fail e => .error e
  | item a t => t.items.map (fun l => a :: l)

@[simp] theorem items_ofList (l : List α) : (ofList l : Trace ε α).items = .ok l := by
  induction l with
  | nil => rfl
  | cons a l ih =>
    rw [ofList, items, ih]
    rfl

/-- The items that are kept, when nothing has failed. -/
theorem items_filterMap {f : α → Except ε (Option β)} {t : Trace ε α} {l' : List β}
    (h : (t.filterMap f).items = .ok l') :
    ∃ l, t.items = .ok l ∧ (∀ a ∈ l, ∃ b, f a = .ok b) ∧
      l' = l.filterMap (fun a => (f a).toOption.join) := by
  induction t generalizing l' with
  | done =>
    cases h
    exact ⟨[], rfl, fun a ha => (nomatch ha), rfl⟩
  | fail e => cases h
  | item a t ih =>
    rw [filterMap] at h
    cases hf : f a with
    | error e =>
      rw [hf] at h
      cases h
    | ok b =>
      rw [hf] at h
      cases b with
      | none =>
        obtain ⟨l, hl, hall, rfl⟩ := ih h
        refine ⟨a :: l, by rw [items, hl]; rfl, ?_, ?_⟩
        · exact forall_mem_cons.mpr ⟨⟨none, hf⟩, hall⟩
        · rw [filterMap_cons_none (by rw [hf]; rfl)]
      | some b =>
        have h : ((t.filterMap f).items).map (fun l => b :: l) = .ok l' := h
        cases hrest : (t.filterMap f).items with
        | error e =>
          rw [hrest] at h
          cases h
        | ok rest =>
          rw [hrest] at h
          obtain ⟨l, hl, hall, rfl⟩ := ih hrest
          refine ⟨a :: l, by rw [items, hl]; rfl, ?_, ?_⟩
          · exact forall_mem_cons.mpr ⟨⟨some b, hf⟩, hall⟩
          · rw [filterMap_cons_some (by rw [hf]; rfl)]
            exact (Except.ok.inj h).symm

theorem ofList_append (l m : List α) :
    (ofList (l ++ m) : Trace ε α) = (ofList l).append (ofList m) := by
  induction l with
  | nil => rfl
  | cons a l ih =>
    rw [cons_append, ofList, ofList, append, ih]

/-- Items that are kept or dropped without a failure. -/
theorem filterMap_ofList {f : α → Except ε (Option β)} {g : α → Option β} (l : List α)
    (h : ∀ a ∈ l, f a = .ok (g a)) :
    (ofList l).filterMap f = (ofList (l.filterMap g) : Trace ε β) := by
  induction l with
  | nil => rfl
  | cons a l ih =>
    have ih := ih (fun b hb => h b (mem_cons_of_mem a hb))
    rw [ofList, filterMap, h a mem_cons_self]
    cases hg : g a with
    | none => rw [filterMap_cons_none hg, ← ih]
    | some b => rw [filterMap_cons_some hg, ofList, ← ih]

theorem flatMap_ofList {f : α → Trace ε β} {g : α → List β} (l : List α)
    (h : ∀ a ∈ l, f a = ofList (g a)) : (ofList l).flatMap f = (ofList (l.flatMap g) : Trace ε β) := by
  induction l with
  | nil => rfl
  | cons a l ih =>
    have ih := ih (fun b hb => h b (mem_cons_of_mem a hb))
    rw [ofList, flatMap, h a mem_cons_self, ih, flatMap_cons, ofList_append]

theorem fold_ofList {f : β → α → Except ε β} {g : β → α → β} (l : List α)
    (h : ∀ b, ∀ a ∈ l, f b a = .ok (g b a)) (b : β) : fold f b (ofList l) = .ok (l.foldl g b) := by
  induction l generalizing b with
  | nil => rfl
  | cons a l ih =>
    rw [ofList, fold, h b a mem_cons_self]
    exact ih (fun b c hc => h b c (mem_cons_of_mem a hc)) (g b a)

end Trace

/-! ### Iterators and their contract -/

/-- The methods of an iterator over a state. -/
structure OpIterator (ε σ α : Type) where
  configure : Bool → σ → σ
  openIter : Timed ε σ Unit
  next : Timed ε σ (Option α)
  close : Timed ε σ Unit
  rewind : Timed ε σ Unit

/-- An opening: the iterator has a trace ahead, or the opening fails. -/
def Starts (x : Timed ε σ Unit) (At : Trace ε α → σ → Prop) : Except ε (Trace ε α) → σ → Prop
  | .ok t, s => ∃ s', Ends x s (.ok () s') ∧ At t s'
  | .error e, s => ∃ s', Ends x s (.error e s')

/-- A call of `next` returns the head of the trace and leaves the rest of it ahead. -/
def Answers (x : Timed ε σ (Option α)) (At : Trace ε α → σ → Prop) : Trace ε α → σ → Prop
  | .done, s => ∃ s', Ends x s (.ok none s') ∧ At .done s'
  | .fail e, s => ∃ s', Ends x s (.error e s')
  | .item a t, s => ∃ s', Ends x s (.ok (some a) s') ∧ At t s'

/-- The iterator follows a trace: `first` is what its first opening comes to. -/
structure Contract (it : OpIterator ε σ α) (willRewind : Bool) (first : Except ε (Trace ε α)) where
  /-- The iterator may be opened. -/
  Ready : σ → Prop
  /-- The iterator is open and has this trace ahead. -/
  At : Trace ε α → σ → Prop
  /-- The iterator was closed. -/
  Closed : σ → Prop
  starts : ∀ {s}, Ready s → Starts it.openIter At first s
  answers : ∀ {s t}, At t s → Answers it.next At t s
  rewinds : ∀ {s t}, willRewind = true → At t s →
    ∃ u s', first = .ok u ∧ Ends it.rewind s (.ok () s') ∧ At u s'
  closes : ∀ {s}, Ready s ∨ (∃ t, At t s) ∨ Closed s → ∃ s', Ends it.close s (.ok () s') ∧ Closed s'

variable {x : Timed ε σ Unit} {At : Trace ε α → σ → Prop} {first : Except ε (Trace ε α)} {s : σ}
  {t : Trace ε α}

theorem Starts.ok (h : Starts x At first s) (hfirst : first = .ok t) :
    ∃ s', Ends x s (.ok () s') ∧ At t s' := by
  subst hfirst
  exact h

theorem Starts.error {e : ε} (h : Starts x At first s) (hfirst : first = .error e) :
    ∃ s', Ends x s (.error e s') := by
  subst hfirst
  exact h

/-- The program comes to what `r` is: it ends in a state that satisfies `P b` if `r` is the value `b`, and
it fails with the error of `r` otherwise. -/
def Leaves (x : Timed ε σ Unit) (P : β → σ → Prop) : Except ε β → σ → Prop
  | .ok b, s => ∃ s', Ends x s (.ok () s') ∧ P b s'
  | .error e, s => ∃ s', Ends x s (.error e s')

theorem starts_iff : Starts x At first s ↔ Leaves x At first s := by
  cases first with
  | ok t => rfl
  | error e => rfl

namespace Leaves

variable {y : Timed ε σ Unit} {P : β → σ → Prop} {r : Except ε β}

theorem congr (hxy : ∀ n, y n s = x n s) (h : Leaves x P r s) : Leaves y P r s := by
  cases r with
  | ok b =>
    obtain ⟨s', hs', hP⟩ := h
    exact ⟨s', hs'.congr hxy, hP⟩
  | error e =>
    obtain ⟨s', hs'⟩ := h
    exact ⟨s', hs'.congr hxy⟩

/-- A program on a part of the state. -/
theorem zoom {z : Timed ε τ Unit} {Q : β → τ → Prop} {part : σ → τ} {put : τ → σ → σ}
    (h : Leaves z Q r (part s)) :
    Leaves (fun n => Pull.zoom part put (z n)) (fun b s' => ∃ t, s' = put t s ∧ Q b t) r s := by
  cases r with
  | ok b =>
    obtain ⟨t, ht, hQ⟩ := h
    exact ⟨_, Ends.zoom ht, t, rfl, hQ⟩
  | error e =>
    obtain ⟨t, ht⟩ := h
    exact ⟨_, Ends.zoom_error ht⟩

/-- One program after another. -/
theorem bind {γ : Type} {Q : γ → σ → Prop} {g : β → Except ε γ} (h : Leaves x P r s)
    (hg : ∀ b s', r = .ok b → P b s' → Leaves y Q (g b) s') :
    Leaves (fun n => x n >>= fun _ => y n) Q (r >>= g) s := by
  cases r with
  | error e =>
    obtain ⟨s', hs'⟩ := h
    exact ⟨s', hs'.bind_error⟩
  | ok b =>
    obtain ⟨s', hs', hP⟩ := h
    have hy := hg b s' rfl hP
    change Leaves _ Q (g b) s
    cases hb : g b with
    | error e =>
      rw [hb] at hy
      obtain ⟨s'', hs''⟩ := hy
      exact ⟨s'', hs'.bind hs''⟩
    | ok c =>
      rw [hb] at hy
      obtain ⟨s'', hs'', hQ⟩ := hy
      exact ⟨s'', hs'.bind hs'', hQ⟩

end Leaves

theorem Answers.congr {x y : Timed ε σ (Option α)} (hxy : ∀ n, y n s = x n s) (h : Answers x At t s) :
    Answers y At t s := by
  cases t with
  | done =>
    obtain ⟨s', hs', hat⟩ := h
    exact ⟨s', hs'.congr hxy, hat⟩
  | fail e =>
    obtain ⟨s', hs'⟩ := h
    exact ⟨s', hs'.congr hxy⟩
  | item a t =>
    obtain ⟨s', hs', hat⟩ := h
    exact ⟨s', hs'.congr hxy, hat⟩

theorem Answers.mono {x : Timed ε σ (Option α)} {At' : Trace ε α → σ → Prop} (h : Answers x At t s)
    (hat : ∀ t s, At t s → At' t s) : Answers x At' t s := by
  cases t with
  | done =>
    obtain ⟨s', hs', h⟩ := h
    exact ⟨s', hs', hat _ _ h⟩
  | fail e => exact h
  | item a t =>
    obtain ⟨s', hs', h⟩ := h
    exact ⟨s', hs', hat _ _ h⟩

/-- An answer from a list that is ahead. -/
theorem Answers.of_head {x : Timed ε σ (Option α)} {u : σ} {l : List α}
    (h : Ends x s (.ok l.head? u)) (hat : At (Trace.ofList l.tail) u) :
    Answers x At (Trace.ofList l) s := by
  cases l with
  | nil => exact ⟨u, h, hat⟩
  | cons a l => exact ⟨u, h, hat⟩

/-- A round of a loop that returns nothing. -/
theorem Answers.loop_again {out : ε} {body : Timed ε σ (Option (Option α))} {s' : σ}
    (h : Ends body s (.ok none s')) (h' : Answers (loop out body) At t s') :
    Answers (loop out body) At t s := by
  cases t with
  | done =>
    obtain ⟨s'', hs'', hat⟩ := h'
    exact ⟨s'', h.loop_again hs'', hat⟩
  | fail e =>
    obtain ⟨s'', hs''⟩ := h'
    exact ⟨s'', h.loop_again hs''⟩
  | item a t =>
    obtain ⟨s'', hs'', hat⟩ := h'
    exact ⟨s'', h.loop_again hs'', hat⟩

/-- Reading an iterator to its end: `k b t` is the state with the accumulator `b` and the iterator in
the state `t`. -/
theorem Contract.drain {it : OpIterator ε τ α} {willRewind : Bool}
    (c : Contract it willRewind first) {out : ε} {part : σ → τ} {put : τ → σ → σ}
    {absorb : α → EStateM ε σ Unit} {f : β → α → Except ε β} {k : β → τ → σ}
    (hpart : ∀ b t, part (k b t) = t) (hput : ∀ b t t', put t' (k b t) = k b t')
    (habsorb : ∀ b a t, absorb a (k b t) = (attempt (f b a) >>= fun b' => set (k b' t)) (k b t))
    (u : Trace ε α) {b : β} {t : τ} (h : c.At u t) :
    Leaves (Pull.drain out part put it.next absorb) (fun b' s => ∃ t', s = k b' t' ∧ c.At .done t')
      (u.fold f b) (k b t) := by
  have hcall : ∀ {b t t' a}, Ends it.next t (.ok a t') →
      Ends (fun n => zoom part put (it.next n)) (k b t) (.ok a (k b t')) := by
    intro b t t' a hn
    rw [← hput b t t']
    refine Ends.zoom ?_
    rw [hpart]
    exact hn
  induction u generalizing b t with
  | done =>
    obtain ⟨t', hn, hat⟩ := c.answers h
    exact ⟨_, Ends.loop_done (Ends.bind (hcall hn) Ends.pure), t', rfl, hat⟩
  | fail e =>
    obtain ⟨t', hn⟩ := c.answers h
    refine ⟨_, Ends.loop_error (Ends.bind_error (Ends.zoom_error (t := t') ?_))⟩
    rw [hpart]
    exact hn
  | item a u ih =>
    obtain ⟨t', hn, hat⟩ := c.answers h
    have habs := habsorb b a t'
    rw [Trace.fold]
    cases hf : f b a with
    | error e =>
      rw [hf] at habs
      exact ⟨_, Ends.loop_error (Ends.bind (hcall hn) (Ends.bind_error (Ends.of_eq (fun _ => habs))))⟩
    | ok b' =>
      rw [hf] at habs
      have hround : Ends (fun n => zoom part put (it.next n) >>= fun
          | none => pure (some ())
          | some a => do
            absorb a
            pure none) (k b t) (.ok none (k b' t')) :=
        Ends.bind (hcall hn) (Ends.bind (Ends.of_eq (fun _ => habs)) Ends.pure)
      have hrest := ih (b := b') hat
      dsimp only
      cases hfold : u.fold f b' with
      | error e =>
        rw [hfold] at hrest
        obtain ⟨s', hs'⟩ := hrest
        exact ⟨s', Ends.loop_again hround hs'⟩
      | ok b'' =>
        rw [hfold] at hrest
        obtain ⟨s', hs', hs''⟩ := hrest
        exact ⟨s', Ends.loop_again hround hs', hs''⟩

/-- Collecting the items of an iterator. -/
theorem Contract.gather {it : OpIterator ε σ α} {willRewind : Bool}
    (c : Contract it willRewind first) (out : ε) (u : Trace ε α) (h : c.At u s) (found : List α) :
    (∀ l, u.items = .ok l →
      ∃ s', Ends (gather out it.next found) s (.ok (found ++ l) s') ∧ c.At .done s') ∧
    (∀ e, u.items = .error e → ∃ s', Ends (gather out it.next found) s (.error e s')) := by
  induction u generalizing s found with
  | done =>
    obtain ⟨s', hn, hat⟩ := c.answers h
    refine ⟨fun l hl => ?_, fun e he => nomatch he⟩
    cases hl
    rw [append_nil]
    exact ⟨s', hn.gather_done, hat⟩
  | fail e =>
    obtain ⟨s', hn⟩ := c.answers h
    refine ⟨fun l hl => (nomatch hl), fun e' he => ?_⟩
    cases he
    exact ⟨s', hn.gather_error⟩
  | item a u ih =>
    obtain ⟨s', hn, hat⟩ := c.answers h
    obtain ⟨hdone, hfail⟩ := ih hat (found ++ [a])
    rw [Trace.items]
    cases hu : u.items with
    | error e =>
      obtain ⟨s'', hs''⟩ := hfail e hu
      refine ⟨fun l hl => (nomatch hl), fun e' he => ?_⟩
      cases he
      exact ⟨s'', hn.gather_item hs''⟩
    | ok l =>
      obtain ⟨s'', hs'', hat''⟩ := hdone l hu
      refine ⟨fun l' hl' => ?_, fun e he => nomatch he⟩
      cases hl'
      rw [append_assoc] at hs''
      exact ⟨s'', hn.gather_item hs'', hat''⟩

/-- The calls of `next` return the trace. -/
def Produces (it : OpIterator ε σ α) : Trace ε α → σ → Prop
  | .done, s => ∃ s', Ends it.next s (.ok none s')
  | .fail e, s => ∃ s', Ends it.next s (.error e s')
  | .item a t, s => ∃ s', Ends it.next s (.ok (some a) s') ∧ Produces it t s'

/-- The two ways to begin again. -/
inductive Reset where
  | rewind
  | reopen

def OpIterator.reset (it : OpIterator ε σ α) : Reset → Timed ε σ Unit
  | .rewind => it.rewind
  | .reopen => fun n => do
    it.close n
    it.openIter n

/-- The states after any number of successful calls of `next` and of the allowed resets. -/
inductive Reached (it : OpIterator ε σ α) (allowed : Reset → Prop) (s : σ) : σ → Prop
  | refl : Reached it allowed s s
  | next {s' s'' : σ} {a : Option α} : Reached it allowed s s' →
      Ends it.next s' (.ok a s'') → Reached it allowed s s''
  | reset {s' s'' : σ} {r : Reset} : Reached it allowed s s' → allowed r →
      Ends (it.reset r) s' (.ok () s'') → Reached it allowed s s''

/-- Whatever was consumed, each allowed reset succeeds and the iterator returns what it returned
after its first opening. -/
def Replays (it : OpIterator ε σ α) (allowed : Reset → Prop) (s : σ) : Prop :=
  ∀ s₁, Ends it.openIter s (.ok () s₁) → ∃ t, Produces it t s₁ ∧
    ∀ s₂, Reached it allowed s₁ s₂ → ∀ r, allowed r →
      ∃ s₃, Ends (it.reset r) s₂ (.ok () s₃) ∧ Produces it t s₃

namespace Contract

variable {it : OpIterator ε σ α} {willRewind : Bool} {first : Except ε (Trace ε α)}
  (c : Contract it willRewind first)

/-- A closed iterator may be opened again. -/
def Reopens : Prop := ∀ s, c.Closed s → c.Ready s

variable {s : σ} {t : Trace ε α}

theorem produces (t : Trace ε α) (h : c.At t s) : Produces it t s := by
  induction t generalizing s with
  | done =>
    obtain ⟨s', hn, -⟩ := c.answers h
    exact ⟨s', hn⟩
  | fail e => exact c.answers h
  | item a t ih =>
    obtain ⟨s', hn, hs'⟩ := c.answers h
    exact ⟨s', hn, ih hs'⟩

/-- One call of `next`. -/
theorem next_at {s' : σ} {a : Option α} (h : c.At t s) (hn : Ends it.next s (.ok a s')) :
    ∃ t', c.At t' s' := by
  cases t with
  | done =>
    obtain ⟨u, hu, hat⟩ := c.answers h
    cases hn.unique hu
    exact ⟨_, hat⟩
  | fail e =>
    obtain ⟨u, hu⟩ := c.answers h
    cases hn.unique hu
  | item b t =>
    obtain ⟨u, hu, hat⟩ := c.answers h
    cases hn.unique hu
    exact ⟨_, hat⟩

/-- One reset. -/
theorem reset_at (hw : willRewind = true) (h : c.At t s) {r : Reset} (hr : r = .reopen → c.Reopens) :
    ∃ u s', first = .ok u ∧ Ends (it.reset r) s (.ok () s') ∧ c.At u s' := by
  cases r with
  | rewind => exact c.rewinds hw h
  | reopen =>
    obtain ⟨u, -, hu, -, -⟩ := c.rewinds hw h
    obtain ⟨s₁, hclose, hclosed⟩ := c.closes (.inr (.inl ⟨t, h⟩))
    obtain ⟨s₂, hopen, hat⟩ := (c.starts (hr rfl s₁ hclosed)).ok hu
    exact ⟨u, s₂, hu, hclose.bind hopen, hat⟩

/-- The states of a run are between two items. -/
theorem reached_at (hw : willRewind = true) {allowed : Reset → Prop}
    (hallowed : allowed .reopen → c.Reopens) {s' : σ} (h : c.At t s) (hr : Reached it allowed s s') :
    ∃ t', c.At t' s' := by
  induction hr with
  | refl => exact ⟨t, h⟩
  | next _ hn ih =>
    obtain ⟨t', ht'⟩ := ih
    exact c.next_at ht' hn
  | reset _ hall hreset ih =>
    obtain ⟨t', ht'⟩ := ih
    obtain ⟨u, s₁, -, hs₁, hat⟩ := c.reset_at hw ht' (fun hr => hallowed (hr ▸ hall))
    cases hreset.unique hs₁
    exact ⟨u, hat⟩

/-- An iterator that keeps its contract replays. -/
theorem replays (hw : willRewind = true) {allowed : Reset → Prop}
    (hallowed : allowed .reopen → c.Reopens) (hs : c.Ready s) : Replays it allowed s := by
  intro s₁ hopen
  cases hfirst : first with
  | error e =>
    obtain ⟨s', hs'⟩ := (c.starts hs).error hfirst
    cases hopen.unique hs'
  | ok t =>
    obtain ⟨s', hs', hat⟩ := (c.starts hs).ok hfirst
    cases hopen.unique hs'
    refine ⟨t, c.produces t hat, fun s₂ hreached r hr => ?_⟩
    obtain ⟨t₂, ht₂⟩ := c.reached_at hw hallowed hat hreached
    obtain ⟨u, s₃, hu, hreset, hat₃⟩ := c.reset_at hw ht₂ (fun h => hallowed (h ▸ hr))
    rw [hfirst] at hu
    cases hu
    exact ⟨s₃, hreset, c.produces t hat₃⟩

end Contract

end Pull
