import CrustyDB.Lib.Stateful

/-! # Byte streams read in pieces

A stream hands its receiver the bytes of the sender in order, cut into pieces at places that the
sender does not choose.  `Source` is the receiving end: the pieces that arrive, each with at least
one byte, and what a read finds after them.  A read into a buffer of `n` bytes returns at most `n`
bytes, all from one piece.  `Sink` is the sending end, with writes that may fail.

`Serde` is a serialiser of messages.  A reader is streaming (`Streams`) when the bytes after the
ones it takes do not change what it takes; the rules for `Streams` follow the reader's text.

* `readLoop_ok`: a loop that asks for `n` bytes gets the next `n` bytes, however they are cut.
* `decoded_eq_iff`: a receiver that takes each read for one message gets the messages sent if and
  only if every read is the encoding of one message.
* `flatten_injective`: messages written without frames can be told apart. -/

namespace Socket

open List

variable {ε α β : Type}

/-! ### The receiving end -/

/-- Bytes that arrive together. -/
structure Piece where
  bytes : List UInt8
  nonempty : bytes ≠ []

/-- What a read finds after the last piece. -/
inductive Ending (ε : Type) where
  | closed
  | failed (e : ε)

/-- The receiving end of a stream. -/
structure Source (ε : Type) where
  pieces : List Piece
  ending : Ending ε

namespace Source

/-- The bytes that have not been read. -/
def pending (s : Source ε) : List UInt8 := s.pieces.flatMap Piece.bytes

/-- One read into a buffer of `n` bytes. -/
def read (n : ℕ) : EStateM ε (Source ε) (List UInt8) := fun s =>
  match s.pieces with
  | [] =>
    match s.ending with
    | .closed => .ok [] s
    | .failed e => .error e s
  | p :: ps =>
    if h : n < p.bytes.length then
      .ok (p.bytes.take n)
        { s with pieces := ⟨p.bytes.drop n, fun hnil => by
            have := List.drop_eq_nil_iff.mp hnil
            omega⟩ :: ps }
    else .ok p.bytes { s with pieces := ps }

variable {n : ℕ} {s : Source ε}

/-- A read of a stream with bytes left returns some of them, in order. -/
theorem read_ok (hn : 0 < n) (hs : s.pending ≠ []) :
    ∃ bs s', read n s = .ok bs s' ∧ bs ≠ [] ∧ bs.length ≤ n ∧
      s.pending = bs ++ s'.pending ∧ s'.ending = s.ending := by
  obtain ⟨pieces, ending⟩ := s
  cases pieces with
  | nil => exact absurd rfl hs
  | cons p ps =>
    have hpos := length_pos_iff.mpr p.nonempty
    by_cases h : n < p.bytes.length
    · refine ⟨p.bytes.take n, _, dif_pos h, ?_, ?_, ?_, rfl⟩
      · apply ne_nil_of_length_pos
        rw [length_take]
        omega
      · exact length_take_le _ _
      · simp only [pending, flatMap_cons, ← append_assoc, take_append_drop]
    · exact ⟨p.bytes, ⟨ps, ending⟩, dif_neg h, p.nonempty, by omega, rfl, rfl⟩

/-- A read of a stream with no bytes left finds the end. -/
theorem read_end (hs : s.pending = []) : read n s = .ok [] s ∨ ∃ e, read n s = .error e s := by
  obtain ⟨pieces, ending⟩ := s
  cases pieces with
  | nil =>
    cases ending with
    | closed => exact .inl rfl
    | failed e => exact .inr ⟨e, rfl⟩
  | cons p ps =>
    simp only [pending, flatMap_cons, append_eq_nil_iff] at hs
    exact absurd hs.1 p.nonempty

/-- Read until `n` bytes have come or the stream ends, at most `limit` bytes at a time and in at
most `fuel` reads. -/
def readLoop (limit : ℕ) : ℕ → ℕ → EStateM ε (Source ε) (List UInt8)
  | 0, _ => pure []
  | fuel + 1, n =>
    if n = 0 then pure []
    else do
      let bs ← read (min limit n)
      if bs = [] then pure []
      else do
        let rest ← readLoop limit fuel (n - bs.length)
        pure (bs ++ rest)

variable {fuel : ℕ}

/-- The loop gets the next `n` bytes, however they are cut. -/
theorem readLoop_ok {limit : ℕ} (hlimit : 0 < limit) (hfuel : n ≤ fuel) {taken later : List UInt8}
    (hs : s.pending = taken ++ later) (htaken : taken.length = n) :
    ∃ s', readLoop limit fuel n s = .ok taken s' ∧ s'.pending = later ∧ s'.ending = s.ending := by
  induction fuel generalizing n s taken with
  | zero =>
    have hnil : taken = [] := length_eq_zero_iff.mp (by omega)
    subst hnil
    exact ⟨s, rfl, hs, rfl⟩
  | succ fuel ih =>
    unfold readLoop
    by_cases hn : n = 0
    · have hnil : taken = [] := length_eq_zero_iff.mp (by omega)
      subst hnil
      rw [if_pos hn]
      exact ⟨s, rfl, hs, rfl⟩
    · have hne : s.pending ≠ [] := by
        intro h
        rw [h] at hs
        have := congrArg List.length hs
        simp only [length_nil, length_append] at this
        omega
      obtain ⟨bs, s₁, hread, hbs, hle, hpend, hend⟩ :=
        read_ok (show 0 < min limit n by omega) hne
      have hsplit : bs ++ s₁.pending = taken ++ later := by rw [← hpend, hs]
      obtain ⟨more, rfl, hlater⟩ : ∃ more, taken = bs ++ more ∧ s₁.pending = more ++ later := by
        obtain ⟨more, h1, h2⟩ | ⟨more, h1, h2⟩ := append_eq_append_iff.mp hsplit
        · exact ⟨more, h1, h2⟩
        · -- the read is no longer than what is asked for
          have hlen := congrArg List.length h1
          rw [length_append] at hlen
          have hmore : more = [] := length_eq_zero_iff.mp (by omega)
          subst hmore
          refine ⟨[], ?_, ?_⟩
          · simpa using h1.symm
          · simpa using h2.symm
      rw [length_append] at htaken
      obtain ⟨s₂, hloop, hp, he⟩ := ih (n := n - bs.length)
        (by have := length_pos_iff.mpr hbs; omega) hlater (by omega)
      refine ⟨s₂, ?_, hp, he.trans hend⟩
      rw [if_neg hn, Stateful.bind_of_ok hread, if_neg hbs, Stateful.bind_of_ok hloop]
      rfl

/-- The successive reads into a buffer of `n` bytes until the stream ends, at most `fuel`. -/
def reads (n : ℕ) : ℕ → Source ε → List (List UInt8)
  | 0, _ => []
  | fuel + 1, s =>
    match read n s with
    | .ok bs s' => if bs = [] then [] else bs :: reads n fuel s'
    | .error _ _ => []

/-- As many reads as there are bytes get all bytes. -/
theorem flatten_reads (hn : 0 < n) (hfuel : s.pending.length ≤ fuel) :
    (reads n fuel s).flatten = s.pending := by
  induction fuel generalizing s with
  | zero => exact (length_eq_zero_iff.mp (by omega)).symm
  | succ fuel ih =>
    unfold reads
    by_cases hs : s.pending = []
    · obtain h | ⟨e, h⟩ := read_end (n := n) hs
      · rw [h, hs]
        rfl
      · rw [h, hs]
        rfl
    · obtain ⟨bs, s', hread, hbs, -, hpend, -⟩ := read_ok hn hs
      have hlen := congrArg List.length hpend
      rw [length_append] at hlen
      have hpos := length_pos_iff.mpr hbs
      rw [hread]
      dsimp only
      rw [if_neg hbs, flatten_cons, ih (by omega), hpend]

theorem ne_nil_of_mem_reads {r : List UInt8} (hr : r ∈ reads n fuel s) : r ≠ [] := by
  induction fuel generalizing s with
  | zero => exact absurd hr not_mem_nil
  | succ fuel ih =>
    unfold reads at hr
    split at hr
    · rename_i bs s' hread
      split_ifs at hr with hbs
      · exact absurd hr not_mem_nil
      · cases hr with
        | head => exact hbs
        | tail _ hr => exact ih hr
    · exact absurd hr not_mem_nil

end Source

/-! ### The sending end -/

/-- The sending end of a stream.  `fault i` is the error of the `i`-th write, with the number of
bytes that went out before it. -/
structure Sink (ε : Type) where
  written : List UInt8
  writes : ℕ
  fault : ℕ → Option (ℕ × ε)

/-- Write all of `bs`. -/
def Sink.writeAll (bs : List UInt8) : EStateM ε (Sink ε) Unit := fun s =>
  match s.fault s.writes with
  | none => .ok () { s with written := s.written ++ bs, writes := s.writes + 1 }
  | some (k, e) => .error e { s with written := s.written ++ bs.take k, writes := s.writes + 1 }

variable {bs : List UInt8}

theorem Sink.writeAll_ok {s s' : Sink ε} (h : writeAll bs s = .ok () s') :
    s'.written = s.written ++ bs := by
  unfold writeAll at h
  split at h
  · cases h
    rfl
  · cases h

/-! ### Messages -/

/-- A reader that takes a value from the front of the bytes. -/
abbrev Take (α : Type) := StateT (List UInt8) Option α

/-- What the reader takes does not depend on the bytes after it. -/
def Streams (f : Take α) : Prop :=
  ∀ ⦃bs a rest⦄, f bs = some (a, rest) → ∀ more, f (bs ++ more) = some (a, rest ++ more)

theorem Streams.pure (a : α) : Streams (pure a : Take α) := by
  intro bs b rest h more
  cases h
  rfl

theorem Streams.none : Streams (fun _ => none : Take α) := by
  intro bs a rest h
  cases h

variable {f : Take α} {g : α → Take β}

theorem Streams.bind (hf : Streams f) (hg : ∀ a, Streams (g a)) : Streams (f >>= g) := by
  intro bs b rest h more
  obtain ⟨⟨a, mid⟩, hfa, hgb⟩ := Option.bind_eq_some_iff.mp h
  show (f (bs ++ more)).bind _ = _
  rw [hf hfa more]
  exact hg a hgb more

/-- The reader takes `a` from a stream that starts with `bs`. -/
def Takes (f : Take α) (bs : List UInt8) (a : α) : Prop :=
  ∀ rest, f (bs ++ rest) = some (a, rest)

theorem Takes.pure (a : α) : Takes (pure a) [] a := fun _ => rfl

theorem Takes.bind {cs : List UInt8} {a : α} {b : β} (hf : Takes f bs a) (hg : Takes (g a) cs b) :
    Takes (f >>= g) (bs ++ cs) b := by
  intro rest
  show (f (bs ++ cs ++ rest)).bind _ = _
  rw [append_assoc, hf]
  exact hg rest

/-- The rule for a sequence that ends without taking more. -/
theorem Takes.bind_pure {a : α} {b : β} (hf : Takes f bs a) (hg : g a = Pure.pure b) :
    Takes (f >>= g) bs b := by
  intro rest
  show (f (bs ++ rest)).bind _ = _
  rw [hf]
  show g a rest = _
  rw [hg]
  rfl

/-- A serialiser.  The bytes of a value fit the memory of the sender. -/
structure Serde (α : Type) where
  toVec : α → Except String (List UInt8)
  deserialize : Take α
  short : ∀ a bs, toVec a = .ok bs → bs.length < 2 ^ 64

namespace Serde

/-- Read one value from all of the bytes. -/
def fromSlice (serde : Serde α) (bs : List UInt8) : Option α :=
  match serde.deserialize bs with
  | some (a, []) => some a
  | _ => none

/-- Every value that is written is read back. -/
def RoundTrips (serde : Serde α) : Prop :=
  ∀ a bs, serde.toVec a = .ok bs → serde.fromSlice bs = some a

variable {serde : Serde α}

theorem fromSlice_eq_some {bs : List UInt8} {a : α} :
    serde.fromSlice bs = some a ↔ serde.deserialize bs = some (a, []) := by
  unfold fromSlice
  constructor
  · intro h
    split at h
    · rename_i hd
      cases h
      exact hd
    · cases h
  · intro h
    rw [h]

/-- A streaming reader takes the same bytes for a value from every stream that starts with them:
of two readable beginnings of one stream that give the same value, neither is longer. -/
theorem fromSlice_unique (hstream : Streams serde.deserialize) {a b : α} {r e rs es : List UInt8}
    (hr : serde.fromSlice r = some a) (he : serde.fromSlice e = some b) (heq : r ++ rs = e ++ es) :
    r = e := by
  rw [fromSlice_eq_some] at hr he
  obtain ⟨more, rfl, -⟩ | ⟨more, rfl, -⟩ := append_eq_append_iff.mp heq
  · have h := (hstream hr more).symm.trans he
    simp only [nil_append, Option.some.injEq, Prod.mk.injEq] at h
    rw [h.2, append_nil]
  · have h := (hstream he more).symm.trans hr
    simp only [nil_append, Option.some.injEq, Prod.mk.injEq] at h
    rw [h.2, append_nil]

/-- Messages that are written one after the other without frames can be told apart, as long as no
message is written as nothing. -/
theorem flatten_injective (hstream : Streams serde.deserialize) {sent sent' : List (α × List UInt8)}
    (hsent : ∀ p ∈ sent, serde.fromSlice p.2 = some p.1 ∧ p.2 ≠ [])
    (hsent' : ∀ p ∈ sent', serde.fromSlice p.2 = some p.1 ∧ p.2 ≠ [])
    (hflat : (sent.map Prod.snd).flatten = (sent'.map Prod.snd).flatten) : sent = sent' := by
  induction sent generalizing sent' with
  | nil =>
    cases sent' with
    | nil => rfl
    | cons q sent' =>
      rw [map_cons, flatten_cons, map_nil, flatten_nil, eq_comm, append_eq_nil_iff] at hflat
      exact absurd hflat.1 (hsent' q mem_cons_self).2
  | cons p sent ih =>
    cases sent' with
    | nil =>
      rw [map_cons, flatten_cons, map_nil, flatten_nil, append_eq_nil_iff] at hflat
      exact absurd hflat.1 (hsent p mem_cons_self).2
    | cons q sent' =>
      rw [map_cons, flatten_cons, map_cons, flatten_cons] at hflat
      have hp := (hsent p mem_cons_self).1
      have hq := (hsent' q mem_cons_self).1
      have hbytes := fromSlice_unique hstream hp hq hflat
      have hvalue : p.1 = q.1 := by
        rw [hbytes, hq, Option.some.injEq] at hp
        exact hp.symm
      rw [hbytes, append_cancel_left_eq] at hflat
      rw [Prod.ext hvalue hbytes, ih (fun x hx => hsent x (mem_cons_of_mem p hx))
        (fun x hx => hsent' x (mem_cons_of_mem q hx)) hflat]

/-- The values that `f` reads from the byte strings, up to the first that it cannot read. -/
def decoded (f : List UInt8 → Option α) : List (List UInt8) → List α
  | [] => []
  | r :: rs =>
    match f r with
    | some a => a :: decoded f rs
    | none => []

/-- A receiver that takes each of its reads for one message. -/
theorem decoded_eq_iff (hstream : Streams serde.deserialize) {reads : List (List UInt8)}
    (hne : ∀ r ∈ reads, r ≠ []) {sent : List (α × List UInt8)}
    (hsent : ∀ p ∈ sent, serde.fromSlice p.2 = some p.1)
    (hflat : reads.flatten = (sent.map Prod.snd).flatten) :
    decoded serde.fromSlice reads = sent.map Prod.fst ↔ reads = sent.map Prod.snd := by
  induction reads generalizing sent with
  | nil =>
    cases sent with
    | nil => simp [decoded]
    | cons p sent => simp [decoded]
  | cons r rs ih =>
    have hr : r ≠ [] := hne r mem_cons_self
    cases sent with
    | nil =>
      simp only [flatten_cons, map_nil, flatten_nil,
        append_eq_nil_iff] at hflat
      exact absurd hflat.1 hr
    | cons p sent =>
      obtain ⟨a, e⟩ := p
      have he : serde.fromSlice e = some a := hsent (a, e) mem_cons_self
      have hrest := fun hflat' => ih (fun x hx => hne x (mem_cons_of_mem _ hx))
        (fun p hp => hsent p (mem_cons_of_mem _ hp)) hflat'
      simp only [map_cons, flatten_cons] at hflat ⊢
      unfold decoded
      constructor
      · intro h
        split at h
        · rename_i b hb
          have hre := fromSlice_unique hstream hb he hflat
          subst hre
          have htail := (List.cons.injEq _ _ _ _).mp h
          rw [(hrest (append_cancel_left hflat)).mp htail.2]
        · cases h
      · intro h
        obtain ⟨rfl, htail⟩ := (List.cons.injEq _ _ _ _).mp h
        rw [he]
        dsimp only
        rw [(hrest (append_cancel_left hflat)).mpr htail]

end Serde

end Socket
