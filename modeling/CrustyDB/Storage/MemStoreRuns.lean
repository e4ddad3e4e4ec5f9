import CrustyDB.Storage.MemStore
import CrustyDB.Index.Cbor

/-! # Runs of the store in main memory

In every run, whatever panics, is removed, created again, shut down and loaded, the last slot of a
container is not behind any of its records (`run_sound`).  A record that is inserted is therefore a
new one as long as the container has a slot left; when its last slot is the highest one, the next
insertion panics (`inserts_iff`).

An iterator goes over the slots up to the last one.  It steps to the next slot before it returns, so
the id it returns with a record is the id of the place after it (`next_found`), and the record with
the highest slot comes with an id that nothing is stored under.  An iterator therefore returns
records under their ids only for a container without any (`enumerates_iff`).

What is shut down is loaded again, and so is what was removed after an earlier shutdown
(`holds_reload`). -/

namespace CrustyDB

open Stateful AList MemIterator

/-! ### What an iterator returns -/

namespace MemIterator

/-- The iterator before it looks at a slot. -/
def place (c : ContainerId) (max slot : SlotId) : MemIterator := ⟨.memSlot c slot, max, slot⟩

section Reading

variable {vals : ContainerMap} {c : ContainerId} {max slot : SlotId}

theorem advance_place (h : slot.toNat + 1 < 65536) :
    (place c max slot).advance = .ok (place c max (slot + 1)) := by
  have hnext : nextU16 slot = .ok (slot + 1) := if_pos h
  unfold advance place ValueId.memSlot
  simp only [hnext]
  rfl

theorem advance_place_overflow (h : ¬ slot.toNat + 1 < 65536) :
    (place c max slot).advance = .error "attempt to add with overflow" := by
  have hnext : nextU16 slot = .error "attempt to add with overflow" := if_neg h
  unfold advance place ValueId.memSlot
  simp only [hnext]
  rfl

theorem next_end (h : max < slot) : next vals (place c max slot) = .ok (none, place c max slot) := by
  rw [next, if_neg]
  exact UInt16.not_le.mpr h

/-- The id that comes with a record is the one of the next slot. -/
theorem next_found {res : List UInt8} (hle : slot ≤ max) (hlt : slot.toNat + 1 < 65536)
    (hres : vals.lookup (.memSlot c slot) = some res) :
    next vals (place c max slot) =
      .ok (some (res, .memSlot c (slot + 1)), place c max (slot + 1)) := by
  have hres' : vals.lookup (place c max slot).tracker = some res := hres
  rw [next, if_pos (show (place c max slot).current ≤ (place c max slot).max from hle), hres']
  simp only [advance_place hlt]
  rfl

theorem next_gap (hle : slot ≤ max) (hlt : slot.toNat + 1 < 65536)
    (hres : vals.lookup (.memSlot c slot) = none) :
    next vals (place c max slot) = next vals (place c max (slot + 1)) := by
  have hres' : vals.lookup (place c max slot).tracker = none := hres
  rw [next, if_pos (show (place c max slot).current ≤ (place c max slot).max from hle), hres']
  dsimp only
  split
  · rename_i msg h
    rw [advance_place hlt] at h
    cases h
  · rename_i it' h
    rw [advance_place hlt] at h
    rw [Except.ok.inj h]

theorem next_overflow (hle : slot ≤ max) (hlt : ¬ slot.toNat + 1 < 65536) :
    next vals (place c max slot) = .error "attempt to add with overflow" := by
  rw [next, if_pos (show (place c max slot).current ≤ (place c max slot).max from hle)]
  cases vals.lookup (place c max slot).tracker with
  | none =>
    dsimp only
    split
    · rename_i msg h
      rw [advance_place_overflow hlt] at h
      rw [Except.error.inj h]
    · rename_i it' h
      rw [advance_place_overflow hlt] at h
      cases h
  | some res =>
    simp only [advance_place_overflow hlt]
    rfl

/-- The records in `d` slots from slot `k` on, each with the id of the slot after it. -/
def following (vals : ContainerMap) (c : ContainerId) : ℕ → ℕ → List (List UInt8 × ValueId)
  | _, 0 => []
  | k, d + 1 =>
    match vals.lookup (.memSlot c (.ofNat k)) with
    | some res => (res, .memSlot c (.ofNat (k + 1))) :: following vals c (k + 1) d
    | none => following vals c (k + 1) d

theorem ofNat_succ (k : ℕ) : UInt16.ofNat k + 1 = UInt16.ofNat (k + 1) := by
  rw [UInt16.ofNat_add]
  rfl

theorem toNat_ofNat {k : ℕ} (h : k < 65536) : (UInt16.ofNat k).toNat = k :=
  UInt16.toNat_ofNat_of_lt' h

theorem ofNat_le {k : ℕ} (hk : k ≤ max.toNat) : UInt16.ofNat k ≤ max := by
  rw [UInt16.le_iff_toNat_le, toNat_ofNat (by have := max.toNat_lt; omega)]
  exact hk

/-- What the next calls give, by what is in a slot that is not the highest one. -/
theorem take_succ {k : ℕ} (hk : k ≤ max.toNat) (hlt : k < 65535) (n : ℕ) :
    take vals (n + 1) (place c max (.ofNat k)) =
      match vals.lookup (.memSlot c (.ofNat k)) with
      | some res => do
        pure ((res, .memSlot c (.ofNat (k + 1))) :: (← take vals n (place c max (.ofNat (k + 1)))))
      | none => take vals (n + 1) (place c max (.ofNat (k + 1))) := by
  have hlt' : (UInt16.ofNat k).toNat + 1 < 65536 := by
    rw [toNat_ofNat (by omega)]
    omega
  rw [← ofNat_succ]
  cases hres : vals.lookup (.memSlot c (.ofNat k)) with
  | none =>
    unfold take
    rw [next_gap (ofNat_le hk) hlt' hres]
  | some res =>
    rw [take, next_found (ofNat_le hk) hlt' hres]
    rfl

variable (vals c) in
/-- An iterator whose last slot is not the highest one returns the records up to it. -/
theorem take_place (hmax : max.toNat < 65535) (d : ℕ) : ∀ k n, k + d = max.toNat + 1 →
    (following vals c k d).length < n →
    take vals n (place c max (.ofNat k)) = .ok (following vals c k d) := by
  induction d with
  | zero =>
    intro k n hk hn
    obtain ⟨m, rfl⟩ := Nat.exists_eq_add_one_of_ne_zero (Nat.ne_zero_of_lt hn)
    have hlt : max < UInt16.ofNat k := by
      rw [UInt16.lt_iff_toNat_lt, toNat_ofNat (by omega)]
      omega
    unfold take
    rw [next_end hlt]
    rfl
  | succ d ih =>
    intro k n hk hn
    obtain ⟨m, rfl⟩ := Nat.exists_eq_add_one_of_ne_zero (Nat.ne_zero_of_lt hn)
    rw [take_succ (by omega) (by omega)]
    rw [following] at hn ⊢
    cases hres : vals.lookup (.memSlot c (.ofNat k)) with
    | none =>
      rw [hres] at hn
      exact ih (k + 1) (m + 1) (by omega) hn
    | some res =>
      rw [hres] at hn
      dsimp only
      rw [ih (k + 1) m (by omega) (Nat.lt_of_succ_lt_succ hn)]
      rfl

variable (vals c) in
/-- An iterator whose last slot is the highest one panics when it has read it. -/
theorem take_overflow (hmax : max.toNat = 65535) (d : ℕ) : ∀ k n, k + d = 65535 → d < n →
    take vals n (place c max (.ofNat k)) = .error "attempt to add with overflow" := by
  induction d with
  | zero =>
    intro k n hk hn
    obtain ⟨m, rfl⟩ := Nat.exists_eq_add_one_of_ne_zero hn.ne'
    have hk' : (UInt16.ofNat k).toNat = k := toNat_ofNat (by omega)
    unfold take
    rw [next_overflow (ofNat_le (by omega)) (by omega)]
    rfl
  | succ d ih =>
    intro k n hk hn
    obtain ⟨m, rfl⟩ := Nat.exists_eq_add_one_of_ne_zero (Nat.ne_zero_of_lt hn)
    rw [take_succ (by omega) (by omega)]
    cases vals.lookup (.memSlot c (.ofNat k)) with
    | none => exact ih (k + 1) (m + 1) (by omega) (by omega)
    | some res =>
      dsimp only
      rw [ih (k + 1) m (by omega) (by omega)]
      rfl

theorem mem_following {d k j : ℕ} {res : List UInt8} (hkj : k ≤ j) (hj : j < k + d)
    (hres : vals.lookup (.memSlot c (.ofNat j)) = some res) :
    (res, ValueId.memSlot c (.ofNat (j + 1))) ∈ following vals c k d := by
  induction d generalizing k with
  | zero => omega
  | succ d ih =>
    unfold following
    by_cases hjk : j = k
    · subst hjk
      rw [hres]
      exact List.mem_cons_self
    · have hmem := ih (k := k + 1) (by omega) (by omega)
      cases vals.lookup (.memSlot c (.ofNat k)) with
      | none => exact hmem
      | some res' => exact List.mem_cons_of_mem _ hmem

end Reading

end MemIterator

namespace MemStore

/-! ### The last slot of a container -/

/-- Every record of the container is in one of its slots. -/
def Slotted (c : ContainerId) (vals : ContainerMap) : Prop :=
  ∀ id ∈ vals, ∃ slot, id = .memSlot c slot

/-- The last slot of a container is not behind any of its records. -/
structure Numbered (containers : AList (fun _ : ContainerId => ContainerMap))
    (lastInsert : AList (fun _ : ContainerId => ValueId)) : Prop where
  live : ∀ c vals, containers.lookup c = some vals → ∀ id ∈ vals, ∃ slot last,
    id = .memSlot c slot ∧ lastInsert.lookup c = some (.memSlot c last) ∧ slot.toNat ≤ last.toNat
  last : ∀ c id, lastInsert.lookup c = some id → ∃ slot, id = .memSlot c slot

/-- Every file can be read as a container. -/
def Readable (serde : Serde) (files : AList (fun _ : ContainerId => List UInt8)) : Prop :=
  ∀ c bytes, files.lookup c = some bytes → ∃ vals, serde.fromReader bytes = some vals ∧ Slotted c vals

structure Sound (serde : Serde) (s : MemStore) : Prop where
  numbered : Numbered s.containers s.lastInsert
  readable : Readable serde s.files

theorem sound_new (serde : Serde) (persisted : Bool) : Sound serde (new persisted) := by
  refine ⟨⟨fun c vals h => ?_, fun c id h => ?_⟩, fun c bytes h => ?_⟩
  all_goals cases h

section Updates

variable {containers : AList (fun _ : ContainerId => ContainerMap)}
  {lastInsert : AList (fun _ : ContainerId => ValueId)} {c : ContainerId} {vals : ContainerMap}

section

variable (h : Numbered containers lastInsert)
include h

theorem Numbered.slotted (hc : containers.lookup c = some vals) :
    Slotted c vals := by
  intro id hid
  obtain ⟨slot, last, rfl, -, -⟩ := h.live c vals hc id hid
  exact ⟨slot, rfl⟩

/-- A container is replaced by one without further records. -/
theorem Numbered.shrink (hvals : ∀ id ∈ vals, ∃ vals', containers.lookup c = some vals' ∧ id ∈ vals') :
    Numbered (containers.insert c vals) lastInsert := by
  refine ⟨fun d vals' hd id hid => ?_, h.last⟩
  by_cases hdc : d = c
  · subst hdc
    rw [lookup_insert] at hd
    cases hd
    obtain ⟨vals'', hold, hmem⟩ := hvals id hid
    exact h.live d vals'' hold id hmem
  · rw [lookup_insert_ne hdc] at hd
    exact h.live d vals' hd id hid

theorem Numbered.erase :
    Numbered (containers.erase c) lastInsert := by
  refine ⟨fun d vals' hd id hid => ?_, h.last⟩
  by_cases hdc : d = c
  · rw [hdc, lookup_erase] at hd
    cases hd
  · rw [lookup_erase_ne hdc] at hd
    exact h.live d vals' hd id hid

/-- A container and its last slot are replaced. -/
theorem Numbered.replace {last : SlotId}
    (hvals : ∀ id ∈ vals, ∃ slot, id = .memSlot c slot ∧ slot.toNat ≤ last.toNat) :
    Numbered (containers.insert c vals) (lastInsert.insert c (.memSlot c last)) := by
  refine ⟨fun d vals' hd id hid => ?_, fun d id hd => ?_⟩
  · by_cases hdc : d = c
    · subst hdc
      rw [lookup_insert] at hd
      cases hd
      obtain ⟨slot, rfl, hle⟩ := hvals id hid
      exact ⟨slot, last, rfl, lookup_insert .., hle⟩
    · rw [lookup_insert_ne hdc] at hd ⊢
      exact h.live d vals' hd id hid
  · by_cases hdc : d = c
    · subst hdc
      rw [lookup_insert] at hd
      exact ⟨last, (Option.some.inj hd).symm⟩
    · rw [lookup_insert_ne hdc] at hd
      exact h.last d id hd

/-- The next slot is behind all the records. -/
theorem Numbered.nextSlot_fresh {slot : SlotId}
    (hc : containers.lookup c = some vals) (hslot : nextSlot (lastInsert.lookup c) = .ok slot) :
    ∀ id ∈ vals, ∃ old, id = .memSlot c old ∧ old.toNat < slot.toNat := by
  intro id hid
  obtain ⟨old, last, rfl, hlast, hle⟩ := h.live c vals hc id hid
  have hnext : nextU16 last = .ok slot := by
    rw [hlast] at hslot
    exact hslot
  unfold nextU16 at hnext
  split_ifs at hnext with hlt
  refine ⟨old, rfl, ?_⟩
  rw [← Except.ok.inj hnext, UInt16.toNat_add, show (1 : UInt16).toNat = 1 from rfl,
    Nat.mod_eq_of_lt hlt]
  omega

end

end Updates

/-! ### The calls and the last slot -/

section Calls

variable {serde : Serde} {s : MemStore} {α : Type} {Q : α → MemStore → Prop}
  {E : MemError → MemStore → Prop}

theorem locked_sat {x : MemStore → MemCall α}
    (hpoisoned : s.poisoned = true → E (.panic "PoisonError") s)
    (hx : s.poisoned = false → Sat (x s) s Q E) : Sat (locked x) s Q E := by
  refine Sat.bind (Sat.get ?_)
  cases h : s.poisoned with
  | true => exact Sat.throw (hpoisoned h)
  | false => exact hx h

theorem locked_eq (x : MemStore → MemCall α) (h : s.poisoned = false) : locked x s = x s s := by
  unfold locked
  refine (bind_of_ok rfl).trans ?_
  rw [h, if_neg Bool.false_ne_true]

/-- The store after a record is inserted. -/
def stored (s : MemStore) (c : ContainerId) (vals : ContainerMap) (slot : SlotId)
    (value : List UInt8) : MemStore :=
  { s with
    containers := s.containers.insert c (vals.insert (.memSlot c slot) value)
    lastInsert := s.lastInsert.insert c (.memSlot c slot) }

variable {c : ContainerId} {vals : ContainerMap}

theorem insertValue_sat {Q : ValueId → MemStore → Prop} {value : List UInt8}
    (hpoisoned : s.poisoned = true → E (.panic "PoisonError") s)
    (hpanic : ∀ msg, E (.panic msg) { s with poisoned := true })
    (hok : ∀ vals slot, s.poisoned = false → s.containers.lookup c = some vals →
      nextSlot (s.lastInsert.lookup c) = .ok slot →
      Q (.memSlot c slot) (s.stored c vals slot value)) : Sat (insertValue c value) s Q E := by
  refine locked_sat hpoisoned (fun hfree => ?_)
  cases hc : s.containers.lookup c with
  | none => exact hpanic _
  | some vals =>
    dsimp only
    cases hslot : nextSlot (s.lastInsert.lookup c) with
    | error msg => exact hpanic msg
    | ok slot => exact hok vals slot hfree hc hslot

theorem insertValue_eq {slot : SlotId} (value : List UInt8) (hfree : s.poisoned = false)
    (hc : s.containers.lookup c = some vals) (hslot : nextSlot (s.lastInsert.lookup c) = .ok slot) :
    insertValue c value s = .ok (.memSlot c slot) (s.stored c vals slot value) := by
  unfold insertValue
  rw [locked_eq _ hfree, hc]
  dsimp only
  rw [hslot]
  rfl

theorem insertValue_panic {msg : String} (value : List UInt8) (hfree : s.poisoned = false)
    (hc : s.containers.lookup c = some vals) (hslot : nextSlot (s.lastInsert.lookup c) = .error msg) :
    insertValue c value s = .error (.panic msg) { s with poisoned := true } := by
  unfold insertValue
  rw [locked_eq _ hfree, hc]
  dsimp only
  rw [hslot]
  rfl

theorem Sound.stored (hs : Sound serde s) {slot : SlotId} (value : List UInt8)
    (hc : s.containers.lookup c = some vals) (hslot : nextSlot (s.lastInsert.lookup c) = .ok slot) :
    Sound serde (s.stored c vals slot value) := by
  refine ⟨hs.numbered.replace (fun id hid => ?_), hs.readable⟩
  rcases (mem_insert _).mp hid with rfl | hid
  · exact ⟨slot, rfl, le_rfl⟩
  · obtain ⟨old, rfl, hlt⟩ := hs.numbered.nextSlot_fresh hc hslot id hid
    exact ⟨old, rfl, hlt.le⟩

/-- Whatever happens, the store is sound afterwards. -/
def Keeps (serde : Serde) (x : MemCall α) : Prop :=
  ∀ s, Sound serde s → Sat x s (fun _ t => Sound serde t) (fun _ t => Sound serde t)

theorem keeps_locked {x : MemStore → MemCall α}
    (hx : ∀ s, Sound serde s → Sat (x s) s (fun _ t => Sound serde t) (fun _ t => Sound serde t)) :
    Keeps serde (locked x) := fun s hs => locked_sat (fun _ => hs) (fun _ => hx s hs)

theorem keeps_bind {β : Type} {x : MemCall α} {f : α → MemCall β} (hx : Keeps serde x)
    (hf : ∀ a, Keeps serde (f a)) : Keeps serde (x >>= f) := fun s hs =>
  Sat.bind ((hx s hs).mono (fun a t ht => hf a t ht) (fun _ _ ht => ht))

theorem keeps_pure (a : α) : Keeps serde (pure a : MemCall α) := fun _ hs => Sat.pure hs

theorem keeps_throw (e : MemError) : Keeps serde (throw e : MemCall α) := fun _ hs => Sat.throw hs

theorem insertValue_keeps (c : ContainerId) (value : List UInt8) :
    Keeps serde (insertValue c value) := fun _ hs =>
  insertValue_sat (fun _ => hs) (fun _ => ⟨hs.numbered, hs.readable⟩)
    (fun _ _ _ hc hslot => hs.stored value hc hslot)

theorem insertValues_keeps (c : ContainerId) (values : List (List UInt8)) :
    Keeps serde (insertValues c values) := by
  induction values with
  | nil => exact keeps_pure _
  | cons value values ih =>
    exact keeps_bind (insertValue_keeps c value) (fun _ => keeps_bind ih (fun _ => keeps_pure _))

theorem deleteValue_keeps (id : ValueId) : Keeps serde (deleteValue id) := by
  refine keeps_locked (fun s hs => ?_)
  cases hc : s.containers.lookup id.containerId with
  | none => exact Sat.throw hs
  | some vals =>
    refine ⟨hs.numbered.shrink (fun id' hid' => ⟨vals, hc, ?_⟩), hs.readable⟩
    exact (mem_erase.mp hid').2

theorem createContainer_keeps (c : ContainerId) (name : Option String)
    (dependencies : Option (List ContainerId)) : Keeps serde (createContainer c name dependencies) := by
  have hadd : Keeps serde (addContainer c) := by
    refine keeps_locked (fun s hs => ?_)
    cases s.containers.lookup c with
    | some vals => exact Sat.pure hs
    | none =>
      refine ⟨hs.numbered.shrink (fun id hid => ?_), hs.readable⟩
      exact absurd hid (notMem_empty id)
  have hrest : Keeps serde (if dependencies.isSome then throw (.panic "not implemented")
      else addContainer c : MemCall Unit) := by
    split_ifs
    · exact keeps_throw _
    · exact hadd
  unfold createContainer
  cases name with
  | none => exact hrest
  | some cName =>
    refine fun s hs => Sat.bind (Sat.get ?_)
    cases s.containerNames.lookup cName with
    | some _ => exact Sat.throw hs
    | none => exact hrest _ ⟨hs.numbered, hs.readable⟩

theorem iterate_keeps (c : ContainerId) (k : ℕ) : Keeps serde (iterate c k) := by
  have hget : Keeps serde (getIterator c) := by
    refine keeps_locked (fun s hs => ?_)
    cases s.containers.lookup c with
    | none => exact Sat.throw hs
    | some vals => exact Sat.pure hs
  refine keeps_bind hget (fun it => ?_)
  cases it.2.take it.1 k with
  | ok records => exact keeps_pure records
  | error msg => exact keeps_throw _

theorem getValue_keeps (id : ValueId) : Keeps serde (getValue id) := by
  refine keeps_locked (fun s hs => ?_)
  cases s.containers.lookup id.containerId with
  | none => exact Sat.throw hs
  | some vals =>
    dsimp only
    cases vals.lookup id with
    | none => exact Sat.throw hs
    | some value => exact Sat.pure hs

/-! ### Files -/

theorem Readable.persist (hserde : serde.RoundTrips)
    {entries : List (Sigma fun _ : ContainerId => ContainerMap)}
    (hentries : ∀ e ∈ entries, Slotted e.1 e.2) {files : AList (fun _ : ContainerId => List UInt8)}
    (hfiles : Readable serde files) : Readable serde (persist serde files entries) := by
  induction entries generalizing files with
  | nil => exact hfiles
  | cons e entries ih =>
    refine ih (fun e' he' => hentries e' (List.mem_cons_of_mem _ he')) (fun c bytes hc => ?_)
    by_cases hce : c = e.1
    · subst hce
      rw [lookup_insert] at hc
      obtain ⟨vals, hread, hperm⟩ := hserde e.2
      refine ⟨vals, Option.some.inj hc ▸ hread, fun id hid => ?_⟩
      exact hentries e List.mem_cons_self id ((mem_of_perm hperm).mp hid)
    · rw [lookup_insert_ne hce] at hc
      exact hfiles c bytes hc

theorem shutdown_keeps (hserde : serde.RoundTrips) : Keeps serde (shutdown serde) := by
  refine fun s hs => Sat.bind (Sat.get ?_)
  split_ifs
  · refine locked_sat (fun _ => hs) (fun _ => ?_)
    refine ⟨hs.numbered, hs.readable.persist hserde (fun e he => ?_)⟩
    exact hs.numbered.slotted (mem_lookup_iff.mpr he)
  · exact Sat.pure hs

/-- The highest slot of the keys, and of the key to start from. -/
theorem maxKey_spec {keys : List ValueId} (hkeys : ∀ id ∈ keys, ∃ slot, id = .memSlot c slot) :
    ∃ last, maxKey c keys = .memSlot c last ∧
      ∀ id ∈ keys, ∃ slot, id = .memSlot c slot ∧ slot.toNat ≤ last.toNat := by
  have hfold : ∀ start : SlotId, ∃ last, keys.foldl higherKey (.memSlot c start) = .memSlot c last ∧
      start.toNat ≤ last.toNat ∧
        ∀ id ∈ keys, ∃ slot, id = .memSlot c slot ∧ slot.toNat ≤ last.toNat := by
    induction keys with
    | nil => exact fun start => ⟨start, rfl, le_rfl, fun id hid => absurd hid List.not_mem_nil⟩
    | cons key keys ih =>
      intro start
      obtain ⟨slot, rfl⟩ := hkeys _ List.mem_cons_self
      have ih := ih (fun id hid => hkeys id (List.mem_cons_of_mem _ hid))
      have hround : higherKey (.memSlot c start) (.memSlot c slot) =
          if start < slot then .memSlot c slot else .memSlot c start := rfl
      rw [List.foldl_cons, hround]
      split_ifs with hlt
      · obtain ⟨last, hlast, hle, hall⟩ := ih slot
        rw [UInt16.lt_iff_toNat_lt] at hlt
        refine ⟨last, hlast, by omega, List.forall_mem_cons.mpr ⟨⟨slot, rfl, hle⟩, hall⟩⟩
      · obtain ⟨last, hlast, hle, hall⟩ := ih start
        rw [UInt16.lt_iff_toNat_lt] at hlt
        refine ⟨last, hlast, hle, List.forall_mem_cons.mpr ⟨⟨slot, rfl, by omega⟩, hall⟩⟩
  obtain ⟨last, hlast, -, hall⟩ := hfold 0
  exact ⟨last, hlast, hall⟩

/-- The containers in readable files. -/
theorem readFiles_numbered {entries : List (Sigma fun _ : ContainerId => List UInt8)}
    (hentries : ∀ e ∈ entries, ∃ vals, serde.fromReader e.2 = some vals ∧ Slotted e.1 vals)
    {containers : AList (fun _ : ContainerId => ContainerMap)}
    {lastInsert : AList (fun _ : ContainerId => ValueId)} (h : Numbered containers lastInsert) :
    ∃ r, readFiles serde entries containers lastInsert = .ok r ∧ Numbered r.1 r.2 := by
  induction entries generalizing containers lastInsert with
  | nil => exact ⟨_, rfl, h⟩
  | cons e entries ih =>
    obtain ⟨vals, hread, hslotted⟩ := hentries e List.mem_cons_self
    obtain ⟨last, hlast, hall⟩ := maxKey_spec hslotted
    have hnext : Numbered (containers.insert e.1 vals) (lastInsert.insert e.1 (.memSlot e.1 last)) :=
      h.replace hall
    obtain ⟨r, hr, hnum⟩ := ih (fun e' he' => hentries e' (List.mem_cons_of_mem _ he')) hnext
    refine ⟨r, ?_, hnum⟩
    rw [readFiles, hread]
    dsimp only
    rw [hlast]
    exact hr

theorem lookup_persist {entries : List (Sigma fun _ : ContainerId => ContainerMap)}
    (hkeys : entries.NodupKeys) (files : AList (fun _ : ContainerId => List UInt8)) (c : ContainerId) :
    (persist serde files entries).lookup c =
      ((entries.dlookup c).map serde.toWriter).or (files.lookup c) := by
  induction entries generalizing files with
  | nil => rfl
  | cons e entries ih =>
    obtain ⟨hnot, hkeys⟩ := List.nodupKeys_cons.mp hkeys
    rw [persist, ih hkeys]
    by_cases hce : c = e.1
    · subst hce
      rw [List.dlookup_eq_none.mpr hnot, lookup_insert, List.dlookup_cons_eq]
      rfl
    · rw [lookup_insert_ne hce, List.dlookup_cons_ne _ _ hce]

theorem lookup_readFiles {entries : List (Sigma fun _ : ContainerId => List UInt8)}
    (hkeys : entries.NodupKeys) {containers : AList (fun _ : ContainerId => ContainerMap)}
    {lastInsert : AList (fun _ : ContainerId => ValueId)} {r}
    (h : readFiles serde entries containers lastInsert = .ok r) (c : ContainerId) :
    r.1.lookup c = ((entries.dlookup c).bind serde.fromReader).or (containers.lookup c) := by
  induction entries generalizing containers lastInsert with
  | nil =>
    cases h
    rfl
  | cons e entries ih =>
    obtain ⟨hnot, hkeys⟩ := List.nodupKeys_cons.mp hkeys
    rw [readFiles] at h
    cases hread : serde.fromReader e.2 with
    | none =>
      rw [hread] at h
      cases h
    | some vals =>
      rw [hread] at h
      rw [ih hkeys h]
      by_cases hce : c = e.1
      · subst hce
        rw [List.dlookup_eq_none.mpr hnot, lookup_insert, List.dlookup_cons_eq]
        exact congrArg (Option.or · _) hread.symm
      · rw [lookup_insert_ne hce, List.dlookup_cons_ne _ _ hce]

theorem load_keeps : Keeps serde (load serde) := by
  refine fun s hs => Sat.bind (Sat.get ?_)
  have hempty : Numbered ∅ ∅ := (sound_new serde s.persisted).numbered
  have hfiles : ∀ e ∈ s.files.entries, ∃ vals, serde.fromReader e.2 = some vals ∧ Slotted e.1 vals :=
    fun e he => hs.readable e.1 e.2 (mem_lookup_iff.mpr he)
  obtain ⟨⟨containers, lastInsert⟩, hr, hnum⟩ := readFiles_numbered hfiles hempty
  rw [hr]
  exact ⟨hnum, hs.readable⟩

/-- Every call keeps the store sound, also when it fails or panics. -/
theorem exec_keeps (hserde : serde.RoundTrips) (op : MemStoreOp) : Keeps serde (op.exec serde) := by
  cases op with
  | insertValue c value => exact keeps_bind (insertValue_keeps c value) (fun _ => keeps_pure _)
  | insertValues c values => exact keeps_bind (insertValues_keeps c values) (fun _ => keeps_pure _)
  | deleteValue id => exact deleteValue_keeps id
  | updateValue value id =>
    refine keeps_bind (keeps_bind (deleteValue_keeps id) (fun _ => ?_)) (fun _ => keeps_pure _)
    exact insertValue_keeps id.containerId value
  | createContainer c name dependencies => exact createContainer_keeps c name dependencies
  | createTable c => exact createContainer_keeps c none none
  | removeContainer c => exact keeps_locked (fun s hs => ⟨hs.numbered.erase, hs.readable⟩)
  | iterate c k => exact keeps_bind (iterate_keeps c k) (fun _ => keeps_pure _)
  | getValue id => exact keeps_bind (getValue_keeps id) (fun _ => keeps_pure _)
  | reset =>
    refine keeps_locked (fun s hs => ⟨⟨fun c vals h => ?_, fun c id h => ?_⟩, hs.readable⟩)
    · cases h
    · cases h
  | clearCache => exact keeps_pure _
  | shutdown => exact shutdown_keeps hserde
  | load => exact load_keeps

/-- The store is sound after every run. -/
theorem run_sound (hserde : serde.RoundTrips) (ops : List MemStoreOp) (hs : Sound serde s) :
    Sound serde (run serde s ops) := by
  induction ops generalizing s with
  | nil => exact hs
  | cons op ops ih =>
    refine ih ?_
    unfold after
    have hop := exec_keeps hserde op s hs
    cases hx : op.exec serde s with
    | ok a t => exact hop.ok hx
    | error e t => exact hop.error hx

end Calls

/-! ### Insertions -/

section Results

variable {serde : Serde} {s : MemStore} {c : ContainerId}

/-- The record is in the store. -/
def Holds (s : MemStore) (id : ValueId) (bytes : List UInt8) : Prop :=
  ∃ vals, s.containers.lookup id.containerId = some vals ∧ vals.lookup id = some bytes

/-- An insertion returns the id of a new record, and all the other records stay. -/
def InsertsNew (s : MemStore) (c : ContainerId) (value : List UInt8) : Prop :=
  ∃ id t, insertValue c value s = .ok id t ∧ (∀ bytes, ¬ Holds s id bytes) ∧ Holds t id value ∧
    ∀ id' bytes, id' ≠ id → (Holds t id' bytes ↔ Holds s id' bytes)

/-- The container exists, it has a slot left, and no call has panicked with the maps locked. -/
structure HasRoom (s : MemStore) (c : ContainerId) : Prop where
  unpoisoned : s.poisoned = false
  container : s.containers.lookup c ≠ none
  slot : s.lastInsert.lookup c ≠ some (.memSlot c 65535)

theorem memSlot_inj {slot slot' : SlotId} (h : ValueId.memSlot c slot = .memSlot c slot') :
    slot = slot' := Option.some.inj (congrArg ValueId.slotId h)

/-- The highest slot. -/
theorem memSlot_max_iff {slot : SlotId} :
    some (ValueId.memSlot c slot) ≠ some (.memSlot c 65535) ↔ slot.toNat + 1 < 65536 := by
  have hmax : slot = 65535 ↔ ¬ slot.toNat + 1 < 65536 := by
    rw [← UInt16.toNat_inj, show (65535 : UInt16).toNat = 65535 from rfl]
    have hlt := slot.toNat_lt
    omega
  rw [← not_not (a := _ < _), ← hmax]
  exact not_congr ⟨fun h => memSlot_inj (Option.some.inj h), fun h => by rw [h]⟩

/-- There is a next slot unless the last one is the highest. -/
theorem Sound.nextSlot_iff (hs : Sound serde s) :
    (∃ slot, nextSlot (s.lastInsert.lookup c) = .ok slot) ↔
      s.lastInsert.lookup c ≠ some (.memSlot c 65535) := by
  cases hlast : s.lastInsert.lookup c with
  | none => exact iff_of_true ⟨0, rfl⟩ nofun
  | some id =>
    obtain ⟨slot, rfl⟩ := hs.numbered.last c id hlast
    have hnext : nextSlot (some (.memSlot c slot)) = nextU16 slot := rfl
    rw [hnext, memSlot_max_iff]
    unfold nextU16
    constructor
    · rintro ⟨next, h⟩
      split_ifs at h with hlt
      exact hlt
    · exact fun hlt => ⟨_, if_pos hlt⟩

variable {vals : ContainerMap} {id : ValueId}

theorem holds_stored {slot : SlotId} {value : List UInt8} (hc : s.containers.lookup c = some vals)
    (hid : id ≠ .memSlot c slot) (bytes : List UInt8) :
    Holds (s.stored c vals slot value) id bytes ↔ Holds s id bytes := by
  unfold Holds stored
  by_cases hcont : id.containerId = c
  · rw [hcont, lookup_insert, hc]
    simp only [Option.some.injEq, exists_eq_left', lookup_insert_ne hid]
  · rw [lookup_insert_ne hcont]

theorem Sound.insertsNew (hs : Sound serde s) (h : HasRoom s c) (value : List UInt8) :
    InsertsNew s c value := by
  obtain ⟨vals, hc⟩ := Option.ne_none_iff_exists'.mp h.container
  obtain ⟨slot, hslot⟩ := hs.nextSlot_iff.mpr h.slot
  refine ⟨_, _, insertValue_eq value h.unpoisoned hc hslot, ?_, ⟨_, lookup_insert .., lookup_insert ..⟩,
    fun id' bytes hid => holds_stored hc hid bytes⟩
  rintro bytes ⟨vals', hc', hlook⟩
  obtain rfl : vals = vals' := Option.some.inj (hc.symm.trans hc')
  have hmem : ValueId.memSlot c slot ∈ vals := by
    rw [← lookup_isSome, hlook]
    rfl
  obtain ⟨old, heq, hlt⟩ := hs.numbered.nextSlot_fresh hc hslot _ hmem
  obtain rfl : slot = old := memSlot_inj heq
  exact absurd hlt (lt_irrefl _)

theorem InsertsNew.hasRoom (hs : Sound serde s) {value : List UInt8} (h : InsertsNew s c value) :
    HasRoom s c := by
  obtain ⟨id, t, hok, -⟩ := h
  have hsat : Sat (insertValue c value) s (fun _ _ => HasRoom s c) (fun _ _ => True) := by
    refine insertValue_sat (fun _ => trivial) (fun _ => trivial) (fun vals slot hfree hc hslot => ?_)
    refine ⟨hfree, ?_, hs.nextSlot_iff.mp ⟨slot, hslot⟩⟩
    rw [hc]
    exact Option.some_ne_none vals
  exact hsat.ok hok

/-! ### Iterators -/

/-- An iterator comes to its end and has returned the bytes of every record once, each with an id
under which the bytes are stored. -/
def Enumerates (s : MemStore) (c : ContainerId) (vals : ContainerMap) : Prop :=
  ∃ records, (∀ k, records.length < k → iterate c k s = .ok records s) ∧
    (records.map Prod.fst).Perm (vals.entries.map Sigma.snd) ∧
    ∀ r ∈ records, getValue r.2 s = .ok r.1 s

/-- The slot an iterator goes up to. -/
def maxSlot (s : MemStore) (c : ContainerId) : SlotId :=
  (((s.lastInsert.lookup c).getD (.new c)).slotId).getD 0

theorem iterate_eq (hfree : s.poisoned = false) (hc : s.containers.lookup c = some vals) (k : ℕ) :
    iterate c k s = match (MemIterator.place c (s.maxSlot c) (.ofNat 0)).take vals k with
      | .ok records => .ok records s
      | .error msg => .error (.panic msg) s := by
  have hget : getIterator c s = .ok (vals, .new c (s.maxSlot c)) s := by
    unfold getIterator
    rw [locked_eq _ hfree]
    dsimp only
    rw [hc]
    rfl
  have hplace : MemIterator.new c (s.maxSlot c) = .place c (s.maxSlot c) (.ofNat 0) := rfl
  unfold iterate
  rw [bind_of_ok hget, hplace]
  cases (MemIterator.place c (s.maxSlot c) (.ofNat 0)).take vals k with
  | ok records => rfl
  | error msg => rfl

theorem getValue_eq_ok {bytes : List UInt8} (h : getValue id s = .ok bytes s) :
    Holds s id bytes := by
  have hsat : Sat (getValue id) s (fun b _ => Holds s id b) (fun _ _ => True) := by
    refine locked_sat (fun _ => trivial) (fun _ => ?_)
    cases hc : s.containers.lookup id.containerId with
    | none => exact Sat.throw trivial
    | some vals =>
      dsimp only
      cases hlook : vals.lookup id with
      | none => exact Sat.throw trivial
      | some value => exact Sat.pure ⟨vals, hc, hlook⟩
  exact hsat.ok h

theorem iterate_poisoned (hp : s.poisoned = true) (k : ℕ) {records : List (List UInt8 × ValueId)} :
    iterate c k s ≠ .ok records s := by
  have hsat : Sat (iterate c k) s (fun _ _ => False) (fun _ _ => True) := by
    refine Sat.bind (locked_sat (fun _ => trivial) (fun hfree => ?_))
    rw [hp] at hfree
    cases hfree
  exact fun h => hsat.ok h

/-- The records of a sound container are in the slots an iterator goes over. -/
theorem Sound.le_maxSlot (hs : Sound serde s) (hc : s.containers.lookup c = some vals)
    (hid : id ∈ vals) : ∃ j ≤ (s.maxSlot c).toNat, id = .memSlot c (.ofNat j) := by
  obtain ⟨slot, last, rfl, hlast, hle⟩ := hs.numbered.live c vals hc id hid
  have hmax : s.maxSlot c = last := by
    unfold maxSlot
    rw [hlast]
    rfl
  refine ⟨slot.toNat, by rw [hmax]; exact hle, ?_⟩
  rw [UInt16.ofNat_toNat]

/-- If every record that is returned is stored under the id it comes with, there is none: the id is
the one of the next slot, and so on up to the last. -/
theorem Sound.empty_of_named (hs : Sound serde s) (hc : s.containers.lookup c = some vals)
    (hmax : (s.maxSlot c).toNat < 65535)
    (hnamed : ∀ r ∈ MemIterator.following vals c 0 ((s.maxSlot c).toNat + 1), Holds s r.2 r.1) :
    vals.entries = [] := by
  have hnext : ∀ j ≤ (s.maxSlot c).toNat, ValueId.memSlot c (.ofNat j) ∈ vals →
      ValueId.memSlot c (.ofNat (j + 1)) ∈ vals := by
    intro j hj hmem
    obtain ⟨res, hres⟩ := Option.isSome_iff_exists.mp (lookup_isSome.mpr hmem)
    obtain ⟨vals', hc', hlook⟩ :=
      hnamed _ (mem_following (Nat.zero_le j) (by omega) hres)
    obtain rfl : vals = vals' := Option.some.inj (hc.symm.trans hc')
    rw [← lookup_isSome, hlook]
    rfl
  have hnone : ∀ d j, j + d = (s.maxSlot c).toNat → ValueId.memSlot c (.ofNat j) ∉ vals := by
    intro d
    induction d with
    | zero =>
      intro j hj hmem
      obtain ⟨k, hk, heq⟩ := hs.le_maxSlot hc (hnext j (by omega) hmem)
      have hnat := congrArg UInt16.toNat (memSlot_inj heq)
      rw [toNat_ofNat (by omega), toNat_ofNat (by omega)] at hnat
      omega
    | succ d ih =>
      intro j hj hmem
      exact ih (j + 1) (by omega) (hnext j (by omega) hmem)
  refine List.eq_nil_iff_forall_not_mem.mpr (fun e he => ?_)
  have hmem : e.1 ∈ vals := mem_keys.mpr (List.mem_map_of_mem he)
  obtain ⟨j, hj, heq⟩ := hs.le_maxSlot hc hmem
  rw [heq] at hmem
  exact hnone ((s.maxSlot c).toNat - j) j (by omega) hmem

theorem following_empty (h : vals.entries = []) (k d : ℕ) :
    MemIterator.following vals c k d = [] := by
  induction d generalizing k with
  | zero => rfl
  | succ d ih =>
    have hnone : vals.lookup (.memSlot c (.ofNat k)) = none := by
      rw [lookup_eq_none]
      intro hmem
      rw [mem_keys, AList.keys, h] at hmem
      cases hmem
    unfold MemIterator.following
    rw [hnone]
    exact ih (k + 1)

theorem Sound.maxSlot_lt_iff (hs : Sound serde s) :
    (s.maxSlot c).toNat < 65535 ↔ s.lastInsert.lookup c ≠ some (.memSlot c 65535) := by
  unfold maxSlot
  cases hlast : s.lastInsert.lookup c with
  | none => exact iff_of_true (show UInt16.toNat 0 < 65535 by decide) nofun
  | some id =>
    obtain ⟨slot, rfl⟩ := hs.numbered.last c id hlast
    have hslot : ((some (ValueId.memSlot c slot)).getD (.new c)).slotId.getD 0 = slot := rfl
    rw [hslot, memSlot_max_iff]
    exact Nat.succ_lt_succ_iff.symm

/-- What an iterator over a container of a sound store does. -/
theorem Sound.enumerates_iff_empty (hs : Sound serde s) (hc : s.containers.lookup c = some vals) :
    Enumerates s c vals ↔ vals.entries = [] ∧ s.poisoned = false ∧
      s.lastInsert.lookup c ≠ some (.memSlot c 65535) := by
  rw [← hs.maxSlot_lt_iff]
  constructor
  · rintro ⟨records, hrun, -, hnamed⟩
    cases hp : s.poisoned with
    | true => exact absurd (hrun _ (Nat.lt_succ_self _)) (iterate_poisoned hp _)
    | false =>
      by_cases hmax : (s.maxSlot c).toNat < 65535
      · let found := MemIterator.following vals c 0 ((s.maxSlot c).toNat + 1)
        have htake := take_place vals c hmax _ 0
          (max records.length found.length + 1) (Nat.zero_add _)
          (Nat.lt_succ_of_le (le_max_right ..))
        have hall := hrun (max records.length found.length + 1) (Nat.lt_succ_of_le (le_max_left ..))
        rw [iterate_eq hp hc, htake] at hall
        obtain ⟨hrec, -⟩ := EStateM.Result.ok.inj hall
        refine ⟨hs.empty_of_named hc hmax (fun r hr => ?_), rfl, hmax⟩
        rw [hrec] at hr
        exact getValue_eq_ok (hnamed r hr)
      · have hlt := (s.maxSlot c).toNat_lt
        have hover := take_overflow vals c (show (s.maxSlot c).toNat = 65535 by omega)
          65535 0 (records.length + 65536) (by omega) (by omega)
        have hall := hrun (records.length + 65536) (by omega)
        rw [iterate_eq hp hc, hover] at hall
        cases hall
  · rintro ⟨hempty, hp, hmax⟩
    refine ⟨[], fun k hk => ?_, ?_, fun r hr => absurd hr List.not_mem_nil⟩
    · have htake := take_place vals c hmax _ 0 k (Nat.zero_add _)
        (by rw [following_empty hempty]; exact hk)
      rw [iterate_eq hp hc, htake, following_empty hempty]
    · rw [hempty]
      exact List.Perm.refl _

end Results

/-! ### Long runs -/

section Filling

variable (serde : Serde) {s : MemStore} {c : ContainerId} (value : List UInt8)

/-- The container exists, no call has panicked, and the next slot is known. -/
structure Fresh (s : MemStore) (c : ContainerId) (slot : ℕ) : Prop where
  unpoisoned : s.poisoned = false
  container : ∃ vals, s.containers.lookup c = some vals
  next : nextSlot (s.lastInsert.lookup c) = .ok (.ofNat slot)

theorem Fresh.insert {k : ℕ} (h : Fresh s c k) :
    ∃ vals, s.after serde (.insertValue c value) = s.stored c vals (.ofNat k) value := by
  obtain ⟨vals, hc⟩ := h.container
  refine ⟨vals, ?_⟩
  have hexec : (MemStoreOp.insertValue c value).exec serde s = .ok () (s.stored c vals (.ofNat k) value) :=
    bind_of_ok (insertValue_eq value h.unpoisoned hc h.next)
  unfold after
  rw [hexec]

/-- After `k` insertions the last slot is the one before slot `k`. -/
theorem run_insertions (h : Fresh s c 0) (k : ℕ) (hk : k < 65536) :
    ∃ t, run serde s (List.replicate (k + 1) (.insertValue c value)) = t ∧ t.poisoned = false ∧
      (∃ vals, t.containers.lookup c = some vals) ∧
      t.lastInsert.lookup c = some (.memSlot c (.ofNat k)) := by
  have hstored : ∀ {t : MemStore} {j : ℕ}, Fresh t c j →
      ∃ u, t.after serde (.insertValue c value) = u ∧ u.poisoned = false ∧
        (∃ vals, u.containers.lookup c = some vals) ∧
        u.lastInsert.lookup c = some (.memSlot c (.ofNat j)) := by
    intro t j ht
    obtain ⟨vals, heq⟩ := ht.insert serde value
    exact ⟨_, heq, ht.unpoisoned, ⟨_, lookup_insert ..⟩, lookup_insert ..⟩
  induction k with
  | zero => exact hstored h
  | succ k ih =>
    obtain ⟨t, ht, hp, hc, hlast⟩ := ih (by omega)
    have hrun : run serde s (List.replicate (k + 1 + 1) (.insertValue c value)) =
        t.after serde (.insertValue c value) := by
      rw [← ht]
      unfold run
      rw [List.replicate_succ', List.foldl_append]
      rfl
    rw [hrun]
    refine hstored ⟨hp, hc, ?_⟩
    have hnat : (UInt16.ofNat k).toNat = k := toNat_ofNat (by omega)
    rw [hlast, ← ofNat_succ]
    exact if_pos (by rw [hnat]; exact hk)

end Filling

end MemStore

/-! ### A file format -/

namespace Cbor

/-- A record id: the map that `encodeRid` writes behind the text `"rid"`. -/
def encodeId (id : ValueId) : List UInt8 := (encodeRid id).drop 4

def takeId (bs : List UInt8) : Option (ValueId × List UInt8) := takeRid (ridText.take 4 ++ bs)

theorem takeId_encodeId (id : ValueId) (rest : List UInt8) :
    takeId (encodeId id ++ rest) = some (id, rest) := takeRid_encodeRid id rest

/-- The bytes of a record, which are an array of integers. -/
def encodeValue (bytes : List UInt8) : List UInt8 :=
  head 128 bytes.length ++ bytes.flatMap (fun b => encodeUint b.toNat)

/-- Read integers as long as there are any. -/
def takeInts : ℕ → List UInt8 → List UInt8 × List UInt8
  | 0, bs => ([], bs)
  | fuel + 1, bs =>
    match takeUint bs with
    | none => ([], bs)
    | some (b, rest) =>
      let (bytes, rest) := takeInts fuel rest
      (UInt8.ofNat b :: bytes, rest)

theorem takeInts_flatMap {rest : List UInt8} (hrest : takeUint rest = none) {bytes : List UInt8}
    {fuel : ℕ} (hfuel : bytes.length ≤ fuel) :
    takeInts fuel (bytes.flatMap (fun b => encodeUint b.toNat) ++ rest) = (bytes, rest) := by
  induction bytes generalizing fuel with
  | nil =>
    cases fuel with
    | zero => rfl
    | succ fuel =>
      show takeInts (fuel + 1) rest = _
      rw [takeInts, hrest]
  | cons b bytes ih =>
    cases fuel with
    | zero => exact absurd hfuel (Nat.not_succ_le_zero _)
    | succ fuel =>
      have hb : b.toNat < 2 ^ 64 := b.toNat_lt.trans (by decide)
      rw [List.flatMap_cons, List.append_assoc, takeInts, takeUint_encodeUint hb]
      dsimp only
      rw [ih (Nat.le_of_succ_le_succ hfuel), UInt8.ofNat_toNat]

/-- A head is read past, whatever its argument. -/
theorem takeHead_some {m : ℕ} (hm : m < 8) (n : ℕ) (rest : List UInt8) :
    ∃ a, takeHead (head (32 * m) n ++ rest) = some (a, rest) := by
  by_cases hn : n < 2 ^ 64
  · exact ⟨_, takeHead_head hm hn rest⟩
  · have hhead : head (32 * m) n = UInt8.ofNat (32 * m + 27) :: beBytes 8 n := by
      unfold head
      rw [if_neg (by omega), if_neg (by omega), if_neg (by omega), if_neg (by omega)]
    refine ⟨(m, 0 * 256 ^ 8 + n % 256 ^ 8), ?_⟩
    rw [hhead, List.cons_append, takeHead_cons hm (by omega)]
    show (takeBe 8 0 (beBytes 8 n ++ rest)).map _ = _
    rw [takeBe_beBytes]
    rfl

theorem length_le_flatMap {α : Type*} {f : α → List UInt8} (hf : ∀ a, 1 ≤ (f a).length)
    (l : List α) : l.length ≤ (l.flatMap f).length := by
  have hle := List.length_le_sum_of_one_le (l.map fun a => (f a).length)
    (fun n hn => by obtain ⟨a, _, rfl⟩ := List.mem_map.mp hn; exact hf a)
  rwa [List.length_map, ← List.length_flatMap] at hle

theorem encodeUint_length_pos (n : ℕ) : 1 ≤ (encodeUint n).length := by
  unfold encodeUint head
  split_ifs <;> exact Nat.succ_pos _

def encodeEntries (entries : List (Sigma fun _ : ValueId => List UInt8)) : List UInt8 :=
  entries.flatMap fun e => encodeId e.1 ++ encodeValue e.2

/-- Read entries up to the end. -/
def takeEntries : ℕ → List UInt8 → Option (List (Sigma fun _ : ValueId => List UInt8))
  | 0, _ => some []
  | _ + 1, [] => some []
  | fuel + 1, b :: bs => do
    let (id, bs) ← takeId (b :: bs)
    let (_, bs) ← takeHead bs
    let (bytes, bs) := takeInts bs.length bs
    let entries ← takeEntries fuel bs
    pure (⟨id, bytes⟩ :: entries)

/-- What comes after a record is no integer. -/
theorem takeUint_encodeEntries (entries : List (Sigma fun _ : ValueId => List UInt8)) :
    takeUint (encodeEntries entries) = none := by
  cases entries with
  | nil => rfl
  | cons e entries => rfl

theorem takeEntries_encodeEntries {entries : List (Sigma fun _ : ValueId => List UInt8)} {fuel : ℕ}
    (hfuel : entries.length ≤ fuel) : takeEntries fuel (encodeEntries entries) = some entries := by
  induction entries generalizing fuel with
  | nil => cases fuel <;> rfl
  | cons e entries ih =>
    cases fuel with
    | zero => exact absurd hfuel (Nat.not_succ_le_zero _)
    | succ fuel =>
      have hid := takeId_encodeId e.1 (encodeValue e.2 ++ encodeEntries entries)
      obtain ⟨a, hhead⟩ := takeHead_some (m := 4) (by decide) e.2.length
        (e.2.flatMap (fun b => encodeUint b.toNat) ++ encodeEntries entries)
      have hbytes : e.2.length ≤ (e.2.flatMap (fun b => encodeUint b.toNat) ++
          encodeEntries entries).length := by
        rw [List.length_append]
        exact (length_le_flatMap (fun b => encodeUint_length_pos _) _).trans (Nat.le_add_right _ _)
      have hall : encodeEntries (e :: entries) =
          encodeId e.1 ++ (encodeValue e.2 ++ encodeEntries entries) := by
        unfold encodeEntries
        rw [List.flatMap_cons, List.append_assoc]
      obtain ⟨b, bs, hcons⟩ : ∃ b bs, encodeEntries (e :: entries) = b :: bs := ⟨_, _, rfl⟩
      rw [← hall, hcons] at hid
      rw [hcons, takeEntries, hid]
      simp only [Option.bind_eq_bind, Option.bind_some]
      unfold encodeValue
      rw [List.append_assoc, hhead]
      simp only [Option.bind_some]
      rw [takeInts_flatMap (takeUint_encodeEntries entries) hbytes, ih (Nat.le_of_succ_le_succ hfuel)]
      rfl

end Cbor

open Cbor in
/-- The format of `serde_cbor`: a map from record ids to arrays of integers.  The numbers of entries
and of bytes are written but not used to read a file. -/
def Serde.cbor : Serde where
  toWriter vals := head 160 vals.entries.length ++ encodeEntries vals.entries
  fromReader bytes := do
    let (_, bs) ← takeHead bytes
    let entries ← takeEntries bs.length bs
    if h : entries.keys.Nodup then some ⟨entries, h⟩ else none

theorem Serde.cbor_roundTrips : Serde.cbor.RoundTrips := by
  intro vals
  refine ⟨vals, ?_, List.Perm.refl _⟩
  obtain ⟨a, hhead⟩ := Cbor.takeHead_some (m := 5) (by decide) vals.entries.length
    (Cbor.encodeEntries vals.entries)
  have hlen : vals.entries.length ≤ (Cbor.encodeEntries vals.entries).length :=
    Cbor.length_le_flatMap
      (f := fun e : Sigma fun _ : ValueId => List UInt8 => Cbor.encodeId e.1 ++ Cbor.encodeValue e.2)
      (fun _ => Nat.succ_pos _) _
  show (Cbor.takeHead (Cbor.head 160 vals.entries.length ++ Cbor.encodeEntries vals.entries)).bind _ = _
  rw [hhead]
  show ((Cbor.takeEntries _ (Cbor.encodeEntries vals.entries)).bind _) = _
  rw [Cbor.takeEntries_encodeEntries hlen]
  exact dif_pos vals.nodupKeys

open MemStore

/-- In every state a run reaches, an insertion gives a new record exactly when the container exists
and has a slot left and no earlier insertion has panicked. -/
theorem inserts_iff (serde : Serde) (hserde : serde.RoundTrips) (persisted : Bool)
    (ops : List MemStoreOp) (c : ContainerId) (value : List UInt8) :
    (run serde (.new persisted) ops).InsertsNew c value ↔
      (run serde (.new persisted) ops).HasRoom c := by
  have hs := run_sound hserde ops (sound_new serde persisted)
  exact ⟨fun h => h.hasRoom hs, fun h => hs.insertsNew h value⟩

theorem inserts_iff_first :
    (run .cbor (.new false) [.createTable 0]).InsertsNew 0 [7] ∧
      ((run .cbor (.new false) [.createTable 0]).InsertsNew 0 [7] ↔
        (run .cbor (.new false) [.createTable 0]).HasRoom 0) := by
  have hiff := inserts_iff .cbor Serde.cbor_roundTrips false [.createTable 0] 0 [7]
  exact ⟨hiff.mpr ⟨rfl, nofun, nofun⟩, hiff⟩

/-- The files that a run leaves, when the manager is shut down and created again: every container that
exists has its records, and one that was removed after an earlier shutdown is there again. -/
theorem holds_reload (serde : Serde) (hserde : serde.RoundTrips) (persisted : Bool)
    (ops : List MemStoreOp) (s : MemStore) (hs : run serde (.new persisted) ops = s)
    (hfree : s.poisoned = false) (hpersisted : s.persisted = true) :
    ∃ t, (do shutdown serde; load serde) s = .ok () t ∧ ∀ id bytes, t.Holds id bytes ↔
      s.Holds id bytes ∨ s.containers.lookup id.containerId = none ∧
        ∃ file vals, s.files.lookup id.containerId = some file ∧
          serde.fromReader file = some vals ∧ vals.lookup id = some bytes := by
  have hsound := run_sound hserde ops (sound_new serde persisted)
  rw [hs] at hsound
  have hfiles := hsound.readable.persist hserde
    (fun e he => hsound.numbered.slotted (mem_lookup_iff.mpr he))
  have hempty : Numbered ∅ ∅ := (sound_new serde persisted).numbered
  obtain ⟨r, hr, -⟩ := readFiles_numbered
    (fun e he => hfiles e.1 e.2 (mem_lookup_iff.mpr he)) hempty
  have hlookup : ∀ c, r.1.lookup c =
      (((s.containers.lookup c).map serde.toWriter).or (s.files.lookup c)).bind serde.fromReader := by
    intro c
    rw [lookup_readFiles (AList.nodupKeys _) hr]
    show (((persist serde s.files s.containers.entries).lookup c).bind _).or none = _
    rw [lookup_persist s.containers.nodupKeys, Option.or_none]
    rfl
  refine ⟨⟨r.1, r.2, ∅, s.persisted, persist serde s.files s.containers.entries, false⟩, ?_, fun id bytes => ?_⟩
  · have hdown : shutdown serde s =
        .ok () { s with files := persist serde s.files s.containers.entries } := by
      show (if s.persisted then _ else _ : MemCall Unit) s = _
      rw [if_pos hpersisted]
      exact locked_eq _ hfree
    simp only [bind, EStateM.bind, hdown, load, get, getThe, MonadStateOf.get, EStateM.get, hr]
    rfl
  show (∃ vals, r.1.lookup id.containerId = some vals ∧ _) ↔ (∃ vals, _ = some vals ∧ _) ∨ _
  rw [hlookup]
  cases hc : s.containers.lookup id.containerId with
  | none =>
    simp only [Option.map_none, Option.none_or, Option.bind_eq_some_iff]
    constructor
    · rintro ⟨vals, ⟨file, hfile, hread⟩, hid⟩
      exact .inr ⟨trivial, file, vals, hfile, hread, hid⟩
    · rintro (⟨vals, ⟨⟩, -⟩ | ⟨-, file, vals, hfile, hread, hid⟩)
      exact ⟨vals, ⟨file, hfile, hread⟩, hid⟩
  | some vals =>
    obtain ⟨vals', hread, hperm⟩ := hserde vals
    simp [hread, perm_lookup hperm]

theorem holds_reload_first : ∃ t, (do shutdown .cbor; load .cbor)
      (run .cbor (.new true) [.createTable 0, .insertValue 0 [7]]) = .ok () t ∧
    t.Holds (.memSlot 0 0) [7] := by
  obtain ⟨t, ht, hiff⟩ := holds_reload .cbor Serde.cbor_roundTrips true
    [.createTable 0, .insertValue 0 [7]] _ rfl rfl rfl
  exact ⟨t, ht, (hiff _ _).mpr (.inl ⟨_, rfl, rfl⟩)⟩

/-- The `65537`th record of a container panics. -/
theorem insertValue_overflow : ∃ t, insertValue 0 []
    (run .cbor (run .cbor (.new false) [.createTable 0])
      (List.replicate 65536 (.insertValue 0 []))) =
    .error (.panic "attempt to add with overflow") t := by
  have hfresh : (run .cbor (.new false) [.createTable 0]).Fresh 0 0 := ⟨rfl, ⟨_, rfl⟩, rfl⟩
  obtain ⟨t, rfl, hp, ⟨vals, hc⟩, hlast⟩ := run_insertions .cbor [] hfresh 65535 (by decide)
  have hslot : nextSlot (some (.memSlot 0 (.ofNat 65535))) =
      .error "attempt to add with overflow" := rfl
  rw [← hlast] at hslot
  exact ⟨_, insertValue_panic [] hp hc hslot⟩

/-- In every state a run reaches, an iterator over a container returns each of its records once,
under the id it is stored under, exactly when the container has no records, its slots are not used
up, and no insertion has panicked. -/
theorem enumerates_iff (serde : Serde) (hserde : serde.RoundTrips) (persisted : Bool)
    (ops : List MemStoreOp) (c : ContainerId) (vals : ContainerMap)
    (hc : (run serde (.new persisted) ops).containers.lookup c = some vals) :
    (run serde (.new persisted) ops).Enumerates c vals ↔ vals.entries = [] ∧
      (run serde (.new persisted) ops).poisoned = false ∧
      (run serde (.new persisted) ops).lastInsert.lookup c ≠ some (.memSlot c 65535) :=
  (run_sound hserde ops (sound_new serde persisted)).enumerates_iff_empty hc

theorem enumerates_iff_new :
    (run .cbor (.new false) [.createTable 0]).Enumerates 0 ∅ := by
  refine (enumerates_iff .cbor Serde.cbor_roundTrips false [.createTable 0] 0 ∅ rfl).mpr ?_
  exact ⟨rfl, rfl, nofun⟩

/-- A container with one record. -/
def onlyRecord : ContainerMap := AList.insert (.memSlot 0 0) [7] ∅

/-- The only record of a container is in slot 0, and the iterator returns it with slot 1, under which
there is nothing. -/
theorem iterate_names_next_slot :
    iterate 0 2 (run .cbor (.new false) [.createTable 0, .insertValue 0 [7]]) =
        .ok [([7], .memSlot 0 1)] (run .cbor (.new false) [.createTable 0, .insertValue 0 [7]]) ∧
      getValue (.memSlot 0 0) (run .cbor (.new false) [.createTable 0, .insertValue 0 [7]]) =
        .ok [7] (run .cbor (.new false) [.createTable 0, .insertValue 0 [7]]) ∧
      getValue (.memSlot 0 1) (run .cbor (.new false) [.createTable 0, .insertValue 0 [7]]) =
        .error (.execution "Record ID not found <c_id:0,slot_id:1>")
          (run .cbor (.new false) [.createTable 0, .insertValue 0 [7]]) := by
  refine ⟨?_, rfl, rfl⟩
  have hmax : (0 : SlotId).toNat < 65535 := by decide
  have htake := MemIterator.take_place onlyRecord 0 hmax 1 0 2
    rfl (by decide)
  have hc : (run .cbor (.new false) [.createTable 0, .insertValue 0 [7]]).containers.lookup 0 =
      some onlyRecord := rfl
  refine (iterate_eq rfl hc 2).trans ?_
  have hslot : (run .cbor (.new false) [.createTable 0, .insertValue 0 [7]]).maxSlot 0 = 0 := rfl
  rw [hslot, htake]
  rfl

end CrustyDB
