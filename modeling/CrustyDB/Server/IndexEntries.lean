import CrustyDB.Server.StoredTypes

/-! # The entries of the indexes

Every write statement maintains the indexes on the table by hand: an insert adds the entries of its
rows, an update takes out the entry under the old key and the old record id and adds one under the
new ones, a delete takes the entry out, and `CREATE INDEX` builds the tree from the rows.

`entries` are the pairs of a key and a record id that an index should have.  Each statement that
succeeds leaves exactly these in every index (`Indexed`, one lemma per statement).  An update and a
delete compute the old key from the row they were given: it need not be the stored row, but has to
have the same first columns (`Stands`), and the columns of the indexes have to be among these. -/

namespace CrustyDB

open Stateful List

variable {storage : Storage} {schema : TableSchema}

/-! ### Keys and trees -/

/-- The indexed columns of a tuple. -/
def keyOf (row : Row) (columns : List ℕ) : IndexKey := columns.map (fun i => (row[i]?).getD .null)

/-- The entries of an index over the rows. -/
def entries (rows : List (ValueId × Row)) (columns : List ℕ) : List (IndexKey × ValueId) :=
  rows.map (fun p => (keyOf p.2 columns, p.1))

variable {row : Row} {key : IndexKey}

/-- The tuple has these columns. -/
def HasKey (row : Row) (columns : List ℕ) : Prop := ∃ key, extractKey row columns = .ok key

theorem extractKey_ok {columns : List ℕ} (h : extractKey row columns = .ok key) :
    key = keyOf row columns := by
  induction columns generalizing key with
  | nil =>
    cases h
    rfl
  | cons i columns ih =>
    obtain ⟨f, rest, hi, hrest, rfl⟩ := extractKey_cons h
    rw [ih hrest]
    simp [keyOf, hi]

theorem getElem?_of_take {n i : ℕ} {row row' : Row} (h : row'.take n = row.take n) (hi : i < n) :
    row'[i]? = row[i]? := by
  rw [← getElem?_take_of_lt hi, h, getElem?_take_of_lt hi]

/-- The key depends on the columns of the index only. -/
theorem keyOf_of_take {n : ℕ} {row row' : Row} {columns : List ℕ} (h : row'.take n = row.take n)
    (hcolumns : ∀ c ∈ columns, c < n) : keyOf row' columns = keyOf row columns :=
  map_congr_left (fun c hc => by rw [getElem?_of_take h (hcolumns c hc)])

/-- The tree of the index has these entries. -/
def HasEntries (s : TableState) (index : IndexInfo) (es : List (IndexKey × ValueId)) : Prop :=
  ∃ tree, s.trees index.indexId = some tree ∧ tree.Perm es

variable {s : TableState} {index : IndexInfo}

theorem HasEntries.perm {es es' : List (IndexKey × ValueId)} (h : HasEntries s index es)
    (hp : es.Perm es') : HasEntries s index es' := by
  obtain ⟨tree, htree, hperm⟩ := h
  exact ⟨tree, htree, hperm.trans hp⟩

/-- The states differ in trees only. -/
def SameTable (s t : TableState) : Prop := t = { s with trees := t.trees }

theorem SameTable.trans {t u : TableState} (h : SameTable s t) (h' : SameTable t u) :
    SameTable s u := by
  unfold SameTable at h h' ⊢
  rw [h', h]

theorem setTree_same (s : TableState) (id : ContainerId) (tree : List (IndexKey × ValueId)) :
    (setTree s id tree).trees id = some tree := if_pos rfl

theorem setTree_ne {id id' : ContainerId} (h : id' ≠ id) (tree : List (IndexKey × ValueId)) :
    (setTree s id tree).trees id' = s.trees id' := if_neg h

/-- What the maintenance of one index does: it changes the tree of the index and no other, and its
entries by `u`. -/
def Changes (index : IndexInfo) (u : List (IndexKey × ValueId) → List (IndexKey × ValueId))
    (s t : TableState) : Prop :=
  SameTable s t ∧ (∀ id, id ≠ index.indexId → t.trees id = s.trees id) ∧
    ∀ es, HasEntries s index es → HasEntries t index (u es)

theorem insertEntry_changes {rid : ValueId} (s : TableState) :
    Sat (insertEntry storage index.indexId key rid) s
      (fun _ t => Changes index (fun es => (key, rid) :: es) s t) (fun _ _ => True) := by
  unfold Sat insertEntry
  cases htree : s.trees index.indexId with
  | none => trivial
  | some tree =>
    dsimp only
    unfold treeInsert
    cases storage.entryError key rid with
    | some msg => trivial
    | none =>
      refine ⟨rfl, fun id hid => setTree_ne hid _, ?_⟩
      rintro es ⟨tree', htree', hperm⟩
      rw [htree] at htree'
      cases htree'
      exact ⟨_, setTree_same _ _ _, hperm.cons _⟩

theorem deleteEntry_changes {rid : ValueId} (s : TableState) :
    Sat (deleteEntry index.indexId key rid) s
      (fun _ t => Changes index (fun es => es.erase (key, rid)) s t) (fun _ _ => True) := by
  unfold Sat deleteEntry
  cases htree : s.trees index.indexId with
  | none => trivial
  | some tree =>
    refine ⟨rfl, fun id hid => setTree_ne hid _, ?_⟩
    rintro es ⟨tree', htree', hperm⟩
    rw [htree] at htree'
    cases htree'
    exact ⟨_, setTree_same _ _ _, hperm.erase _⟩

theorem Changes.trans {u v : List (IndexKey × ValueId) → List (IndexKey × ValueId)}
    {t r : TableState} (h : Changes index u s t) (h' : Changes index v t r) :
    Changes index (fun es => v (u es)) s r := by
  refine ⟨h.1.trans h'.1, fun id hid => (h'.2.1 id hid).trans (h.2.1 id hid), ?_⟩
  exact fun es hes => h'.2.2 _ (h.2.2 es hes)

variable {indexes : List IndexInfo}

/-- The maintenance of all indexes, one after another: their ids are distinct, so each tree is
changed once.  `K` is what the maintenance of an index has found out when it returns. -/
theorem forIndexes_sat {body : IndexInfo → Stmt PUnit} {K : IndexInfo → Prop}
    {u : IndexInfo → List (IndexKey × ValueId) → List (IndexKey × ValueId)}
    (hbody : ∀ index t, Sat (body index) t (fun _ t' => K index ∧ Changes index (u index) t t')
      (fun _ _ => True)) (hids : (indexes.map IndexInfo.indexId).Nodup) (s : TableState) :
    Sat (indexes.forM body) s
      (fun _ t => SameTable s t ∧
        (∀ id, id ∉ indexes.map IndexInfo.indexId → t.trees id = s.trees id) ∧
        ∀ index ∈ indexes, K index ∧
          ∀ es, HasEntries s index es → HasEntries t index (u index es))
      (fun _ _ => True) := by
  induction indexes generalizing s with
  | nil => exact ⟨rfl, fun _ _ => rfl, by simp⟩
  | cons index indexes ih =>
    rw [map_cons, nodup_cons] at hids
    refine Sat.bind (x := body index) (f := fun _ => indexes.forM body) ?_
    refine (hbody index s).mono ?_ (fun _ _ h => h)
    rintro _ t ⟨hK, hsame, hother, hchange⟩
    refine (ih hids.2 t).mono ?_ (fun _ _ h => h)
    rintro _ r ⟨hsame', hother', hchange'⟩
    refine ⟨hsame.trans hsame', ?_, ?_⟩
    · intro id hid
      rw [map_cons, mem_cons, not_or] at hid
      rw [hother' id hid.2, hother id hid.1]
    · rw [forall_mem_cons]
      refine ⟨⟨hK, ?_⟩, fun i hi => ⟨(hchange' i hi).1, ?_⟩⟩
      · intro es hes
        obtain ⟨tree, htree, hperm⟩ := hchange es hes
        exact ⟨tree, by rw [hother' _ hids.1, htree], hperm⟩
      · intro es hes
        apply (hchange' i hi).2
        have hne : i.indexId ≠ index.indexId := by
          intro heq
          apply hids.1
          rw [← heq]
          exact mem_map_of_mem hi
        obtain ⟨tree, htree, hperm⟩ := hes
        exact ⟨tree, by rw [hother _ hne, htree], hperm⟩

/-! ### The invariant -/

/-- Every index is on columns of a table with `n` columns, and has the entries of these rows, in a
tree of its own. -/
structure IndexedAs (n : ℕ) (s : TableState) (rows : List (ValueId × Row)) : Prop where
  exact : ∀ index ∈ s.indexes, HasEntries s index (entries rows index.columns)
  keyed : ∀ index ∈ s.indexes, ∀ p ∈ rows, HasKey p.2 index.columns
  columns : ∀ index ∈ s.indexes, ∀ c ∈ index.columns, c < n
  names : ∀ index ∈ s.indexes, s.generator.getTableIdIfExists index.name = some index.indexId
  indexIds : (s.indexes.map IndexInfo.indexId).Nodup

/-- Every index has the entries of the rows of the table. -/
structure Indexed (n : ℕ) (s : TableState) : Prop extends IndexedAs n s s.rows where
  rowIds : (s.rows.map Prod.fst).Nodup

variable {rows : List (ValueId × Row)} {id : ValueId} {n : ℕ}

theorem indexed_empty (hrows : s.rows = []) (hindexes : s.indexes = []) : Indexed n s := by
  refine ⟨⟨?_, ?_, ?_, ?_, ?_⟩, ?_⟩ <;> simp [hrows, hindexes]

theorem IndexedAs.withRows (h : IndexedAs n s rows) (rows' : List (ValueId × Row)) :
    IndexedAs n { s with rows := rows' } rows :=
  ⟨h.exact, h.keyed, h.columns, h.names, h.indexIds⟩

/-- A loop over the indexes that turns the entries of `rows` into those of `rows'`. -/
theorem IndexedAs.forIndexes {rows' : List (ValueId × Row)} (h : IndexedAs n s rows)
    {body : IndexInfo → Stmt PUnit} {K : IndexInfo → Prop}
    {u : IndexInfo → List (IndexKey × ValueId) → List (IndexKey × ValueId)}
    (hbody : ∀ index t, Sat (body index) t (fun _ t' => K index ∧ Changes index (u index) t t')
      (fun _ _ => True))
    (hu : ∀ index ∈ s.indexes,
      (u index (entries rows index.columns)).Perm (entries rows' index.columns))
    (hkeys : ∀ index, K index → ∀ p ∈ rows', p ∈ rows ∨ HasKey p.2 index.columns) :
    Sat (s.indexes.forM body) s (fun _ t => SameTable s t ∧ IndexedAs n t rows')
      (fun _ _ => True) := by
  refine (forIndexes_sat hbody h.indexIds s).mono ?_ (fun _ _ h => h)
  rintro _ t ⟨hsame, -, hchange⟩
  refine ⟨hsame, ?_⟩
  have hindexes : t.indexes = s.indexes := by rw [hsame]
  have hgenerator : t.generator = s.generator := by rw [hsame]
  refine ⟨?_, ?_, ?_, ?_, ?_⟩
  · intro index hindex
    rw [hindexes] at hindex
    exact ((hchange index hindex).2 _ (h.exact index hindex)).perm (hu index hindex)
  · intro index hindex p hp
    rw [hindexes] at hindex
    obtain hold | hnew := hkeys index (hchange index hindex).1 p hp
    · exact h.keyed index hindex p hold
    · exact hnew
  · rw [hindexes]
    exact h.columns
  · rw [hindexes, hgenerator]
    exact h.names
  · rw [hindexes]
    exact h.indexIds

/-! ### Inserts -/

theorem addEntries_indexed (h : IndexedAs n s rows) (row : Row) (rid : ValueId) :
    Sat (addEntries storage row rid s.indexes) s
      (fun _ t => SameTable s t ∧ IndexedAs n t (rows ++ [(rid, row)])) (fun _ _ => True) := by
  refine h.forIndexes (K := fun index => HasKey row index.columns)
    (u := fun index es => (keyOf row index.columns, rid) :: es) ?_ ?_ ?_
  · intro index t
    apply Sat.bind
    refine lift_sat (fun key hkey => ?_) (fun _ _ => trivial)
    rw [extractKey_ok hkey]
    exact (insertEntry_changes t).mono (fun _ _ h => ⟨⟨key, hkey⟩, h⟩) (fun _ _ h => h)
  · intro index _
    rw [entries, entries, map_append, map_singleton]
    exact (perm_append_singleton _ _).symm
  · intro index hkey p hp
    obtain hp | hp := mem_append.mp hp
    · exact .inl hp
    · cases mem_singleton.mp hp
      exact .inr hkey

theorem addAllEntries_indexed (h : IndexedAs n s rows) (tuples : List (Row × ValueId)) :
    Sat (addAllEntries storage s.indexes tuples) s
      (fun _ t => SameTable s t ∧ IndexedAs n t (rows ++ tuples.map Prod.swap))
      (fun _ _ => True) := by
  induction tuples generalizing s rows with
  | nil =>
    apply Sat.pure
    rw [map_nil, append_nil]
    exact ⟨rfl, h⟩
  | cons p tuples ih =>
    obtain ⟨row, rid⟩ := p
    unfold addAllEntries
    apply Sat.bind
    refine (newRecord_sat s).mono ?_ (fun _ _ _ => trivial)
    rintro _ t rfl
    apply Sat.bind
    refine (addEntries_indexed h row rid).mono ?_ (fun _ _ _ => trivial)
    rintro _ r ⟨hsame, hr⟩
    have hindexes : r.indexes = t.indexes := by rw [hsame]
    rw [← hindexes]
    refine (ih hr).mono ?_ (fun _ _ _ => trivial)
    rintro _ u ⟨hsame', hu⟩
    refine ⟨hsame.trans hsame', ?_⟩
    rw [append_assoc] at hu
    exact hu

theorem addVals_nodup (tuples : List Row) (s : TableState) (hs : (s.rows.map Prod.fst).Nodup) :
    Sat (addVals storage tuples) s (fun _ t => (t.rows.map Prod.fst).Nodup) (fun _ _ => True) := by
  induction tuples generalizing s with
  | nil => exact Sat.pure hs
  | cons row tuples ih =>
    unfold addVals
    apply Sat.bind
    apply Sat.get
    cases hplace : storage.place s.rows row with
    | none => exact Sat.throw trivial
    | some v =>
      apply Sat.bind
      refine Sat.of_ok rfl ?_
      apply Sat.bind
      have hnodup : ((s.rows ++ [(v, row)]).map Prod.fst).Nodup := by
        rw [map_append, map_singleton, nodup_append]
        refine ⟨hs, nodup_singleton _, ?_⟩
        intro a ha b hb heq
        cases mem_singleton.mp hb
        rw [heq] at ha
        exact storage.place_fresh _ _ _ hplace ha
      refine (ih _ hnodup).mono ?_ (fun _ _ _ => trivial)
      exact fun vs t ht => Sat.pure ht

theorem insertValidatedTuples_indexed (tuples : List Row) :
    Keeps (Indexed n) (insertValidatedTuples storage tuples) := by
  intro s hs
  unfold insertValidatedTuples
  apply Sat.bind
  refine ((addVals_sat tuples s).and (addVals_nodup tuples s hs.rowIds)).mono ?_ (fun _ _ _ => trivial)
  rintro vs t ⟨⟨hlen, rfl⟩, hnodup⟩
  apply Sat.bind
  apply Sat.get
  apply Sat.bind
  refine (addAllEntries_indexed (hs.toIndexedAs.withRows _) (tuples.zip vs)).mono ?_
    (fun _ _ _ => trivial)
  rintro _ r ⟨hsame, hr⟩
  apply Sat.pure
  have hrows : r.rows = s.rows ++ vs.zip tuples := by rw [hsame]
  rw [zip_swap, ← hrows] at hr
  refine ⟨hr, ?_⟩
  rw [hrows]
  exact hnodup

theorem importTuples_indexed (values : List (List InsertExpr)) :
    Keeps (Indexed n) (importTuples storage schema values) := by
  intro s hs
  unfold importTuples
  apply Sat.bind
  refine lift_sat (fun res _ => ?_) (fun _ _ => trivial)
  apply Sat.bind
  refine lift_sat (fun res' _ => ?_) (fun _ _ => trivial)
  split_ifs
  · exact Sat.throw trivial
  · exact insertValidatedTuples_indexed _ s hs

theorem importCsv_indexed (parseDate : String → Option Int64)
    (records : List (Except String (List String))) :
    Keeps (Indexed n) (importCsv storage parseDate schema records) :=
  importCsv_keeps (R := fun _ => True)
    (fun _ _ _ _ _ _ => ⟨insertValidatedTuples_indexed _, fun _ _ => trivial⟩) (fun _ _ => trivial)

/-! ### One row among the rows -/

/-- The row stands in one place. -/
theorem rows_split (hnodup : (rows.map Prod.fst).Nodup) (hmem : (id, row) ∈ rows) :
    ∃ l m, rows = l ++ (id, row) :: m ∧ (∀ p ∈ l, p.1 ≠ id) ∧ ∀ p ∈ m, p.1 ≠ id := by
  obtain ⟨l, m, rfl⟩ := append_of_mem hmem
  rw [map_append, map_cons, nodup_append, nodup_cons] at hnodup
  obtain ⟨-, ⟨hm, -⟩, hdisj⟩ := hnodup
  refine ⟨l, m, rfl, ?_, ?_⟩
  · exact fun p hp => hdisj _ (mem_map_of_mem hp) _ mem_cons_self
  · intro p hp heq
    have hid := mem_map_of_mem (f := Prod.fst) hp
    rw [heq] at hid
    exact hm hid

section Split

variable {l m : List (ValueId × Row)} {id : ValueId} {row : Row}

theorem map_replace (hl : ∀ p ∈ l, p.1 ≠ id) (hm : ∀ p ∈ m, p.1 ≠ id) (v : ValueId) (new : Row) :
    (l ++ (id, row) :: m).map (fun p => if p.1 = id then (v, new) else p) = l ++ (v, new) :: m := by
  have hkeep : ∀ k : List (ValueId × Row), (∀ p ∈ k, p.1 ≠ id) →
      k.map (fun p => if p.1 = id then (v, new) else p) = k := by
    intro k hk
    rw [map_congr_left (g := fun p => p) (fun p hp => if_neg (hk p hp)), map_id']
  rw [map_append, map_cons, hkeep l hl, hkeep m hm, if_pos rfl]

theorem filter_ne (hl : ∀ p ∈ l, p.1 ≠ id) (hm : ∀ p ∈ m, p.1 ≠ id) :
    (l ++ (id, row) :: m).filter (fun p => p.1 ≠ id) = l ++ m := by
  have hkeep : ∀ k : List (ValueId × Row), (∀ p ∈ k, p.1 ≠ id) →
      k.filter (fun p => decide (p.1 ≠ id)) = k :=
    fun k hk => filter_eq_self.mpr (fun p hp => decide_eq_true (hk p hp))
  rw [filter_append, filter_cons_of_neg (by simp), hkeep l hl, hkeep m hm]

theorem entries_erase (hl : ∀ p ∈ l, p.1 ≠ id) (columns : List ℕ) :
    (entries (l ++ (id, row) :: m) columns).erase (keyOf row columns, id) = entries (l ++ m) columns := by
  have hnot : (keyOf row columns, id) ∉ entries l columns := by
    intro hmem
    obtain ⟨p, hp, heq⟩ := mem_map.mp hmem
    exact hl p hp (congrArg Prod.snd heq)
  rw [entries, map_append, map_cons]
  show (entries l columns ++ _ :: entries m columns).erase _ = _
  rw [erase_append_right _ hnot, erase_cons_head, entries, entries, entries,
    map_append]

theorem entries_middle (columns : List ℕ) (v : ValueId) (new : Row) :
    ((keyOf new columns, v) :: entries (l ++ m) columns).Perm (entries (l ++ (v, new) :: m) columns) := by
  rw [entries, entries, map_append, map_append, map_cons]
  exact perm_middle.symm

end Split

/-! ### Updates -/

/-- A row that is to be written has the first columns of the row that is stored under its id. -/
def Stands (n : ℕ) (s : TableState) (p : ValueId × Row) : Prop :=
  ∃ row, (p.1, row) ∈ s.rows ∧ p.2.take n = row.take n

/-- The record `id` is replaced or removed, the others stand as before. -/
theorem Stands.other {l m : List (ValueId × Row)} {p : ValueId × Row} {t : TableState}
    (h : Stands n s p) (hrows : s.rows = l ++ (id, row) :: m) (hne : p.1 ≠ id)
    (ht : ∀ q ∈ l ++ m, q ∈ t.rows) : Stands n t p := by
  obtain ⟨row', hmem, htake⟩ := h
  refine ⟨row', ht _ ?_, htake⟩
  rw [hrows] at hmem
  simp only [mem_append, mem_cons, Prod.mk.injEq, hne, false_and, false_or] at hmem ⊢
  exact hmem

/-- The ids after one record got the id `v`. -/
theorem nodup_replace {v : ValueId} (row : Row) (hnodup : (rows.map Prod.fst).Nodup)
    (hv : v = id ∨ v ∉ rows.map Prod.fst) :
    ((rows.map (fun p => if p.1 = id then (v, row) else p)).map Prod.fst).Nodup := by
  rw [map_map]
  have hmap : rows.map (Prod.fst ∘ fun p => if p.1 = id then (v, row) else p) =
      (rows.map Prod.fst).map (fun x => if x = id then v else x) := by
    rw [map_map]
    refine map_congr_left (fun p _ => ?_)
    simp only [Function.comp]
    split_ifs <;> rfl
  rw [hmap]
  refine hnodup.map_on (fun x hx y hy hxy => ?_)
  rcases hv with rfl | hv
  · split_ifs at hxy <;> simp_all
  · split_ifs at hxy with h1 h2 h2
    · rw [h1, h2]
    · exact absurd (hxy ▸ hy) hv
    · exact absurd (hxy ▸ hx) hv
    · exact hxy

theorem moveEntries_indexed {l m : List (ValueId × Row)} (h : IndexedAs n s (l ++ (id, row) :: m))
    (hl : ∀ p ∈ l, p.1 ≠ id) {old : Row} (hold : old.take n = row.take n) (new : Row)
    (id' : ValueId) : Sat (moveEntries storage old new id id' s.indexes) s
      (fun _ t => SameTable s t ∧ IndexedAs n t (l ++ (id', new) :: m)) (fun _ _ => True) := by
  refine h.forIndexes (K := fun index => HasKey new index.columns) (u := fun index es =>
    (keyOf new index.columns, id') :: es.erase (keyOf old index.columns, id)) ?_ ?_ ?_
  · intro index t
    apply Sat.bind
    refine lift_sat (fun oldKey holdKey => ?_) (fun _ _ => trivial)
    apply Sat.bind
    refine lift_sat (fun newKey hnew => ?_) (fun _ _ => trivial)
    rw [extractKey_ok holdKey, extractKey_ok hnew]
    apply Sat.bind
    refine (deleteEntry_changes t).mono ?_ (fun _ _ h => h)
    intro _ t₁ ht₁
    refine (insertEntry_changes t₁).mono ?_ (fun _ _ h => h)
    exact fun _ t₂ ht₂ => ⟨⟨newKey, hnew⟩, ht₁.trans ht₂⟩
  · intro index hindex
    rw [keyOf_of_take hold (h.columns index hindex), entries_erase hl]
    exact entries_middle _ _ _
  · intro index hkey p hp
    rw [mem_append, mem_cons] at hp
    obtain hp | rfl | hp := hp
    · exact .inl (mem_append_left _ hp)
    · exact .inr hkey
    · exact .inl (mem_append_right _ (mem_cons_of_mem _ hp))

theorem updateRows_indexed {columns : List (ℕ × Field)} (pending : List (ValueId × Row))
    (hids : (pending.map Prod.fst).Nodup) (hs : Indexed n s) (hindexes : s.indexes = indexes)
    (hmem : ∀ p ∈ pending, Stands n s p) :
    Sat (updateRows storage columns indexes pending) s (fun _ t => Indexed n t)
      (fun _ _ => True) := by
  induction pending generalizing s with
  | nil => exact Sat.pure hs
  | cons p pending ih =>
    obtain ⟨id, old⟩ := p
    rw [map_cons, nodup_cons] at hids
    obtain ⟨⟨row, hrow, hold⟩, hrest⟩ := forall_mem_cons.mp hmem
    obtain ⟨l, m, hrows, hl, hm⟩ := rows_split hs.rowIds hrow
    unfold updateRows
    apply Sat.bind
    refine lift_sat (fun tuple _ => ?_) (fun _ _ => trivial)
    apply Sat.bind
    unfold updateValue Sat
    dsimp only
    cases hreplace : storage.replace s.rows id tuple with
    | error msg => trivial
    | ok id' =>
      have hnodup := nodup_replace tuple hs.rowIds (storage.replace_fresh _ _ _ _ hreplace)
      rw [hrows, map_replace hl hm] at hnodup
      dsimp only
      rw [hrows, map_replace hl hm]
      apply Sat.bind
      have has : IndexedAs n { s with rows := l ++ (id', tuple) :: m } (l ++ (id, row) :: m) := by
        rw [← hrows]
        exact hs.toIndexedAs.withRows _
      rw [← hindexes]
      refine (moveEntries_indexed has hl hold tuple id').mono ?_ (fun _ _ _ => trivial)
      rintro _ t ⟨hsame, ht⟩
      have htrows : t.rows = l ++ (id', tuple) :: m := by rw [hsame]
      have htindexes : t.indexes = s.indexes := by rw [hsame]
      rw [hindexes]
      apply ih hids.2 _ (htindexes.trans hindexes)
      · -- the other rows to be updated are untouched
        intro p hp
        refine (hrest p hp).other hrows (fun heq => hids.1 (heq ▸ mem_map_of_mem hp)) ?_
        intro q hq
        rw [htrows]
        simp only [mem_append, mem_cons] at hq ⊢
        tauto
      · rw [← htrows] at ht hnodup
        exact ⟨ht, hnodup⟩

/-! ### Deletes -/

theorem removeEntries_indexed {l m : List (ValueId × Row)}
    (h : IndexedAs n s (l ++ (id, row) :: m)) (hl : ∀ p ∈ l, p.1 ≠ id) {old : Row}
    (hold : old.take n = row.take n) : Sat (removeEntries old id s.indexes) s
      (fun _ t => SameTable s t ∧ IndexedAs n t (l ++ m)) (fun _ _ => True) := by
  refine h.forIndexes (K := fun _ => True)
    (u := fun index es => es.erase (keyOf old index.columns, id)) ?_ ?_ ?_
  · intro index t
    apply Sat.bind
    refine lift_sat (fun key hkey => ?_) (fun _ _ => trivial)
    rw [extractKey_ok hkey]
    exact (deleteEntry_changes t).mono (fun _ _ h => ⟨trivial, h⟩) (fun _ _ h => h)
  · intro index hindex
    rw [keyOf_of_take hold (h.columns index hindex), entries_erase hl]
  · intro index _ p hp
    rw [mem_append] at hp
    exact .inl (mem_append.mpr (hp.imp_right (mem_cons_of_mem _)))

theorem deleteRows_indexed (pending : List (ValueId × Row)) (hids : (pending.map Prod.fst).Nodup)
    (hs : Indexed n s) (hindexes : s.indexes = indexes) (hmem : ∀ p ∈ pending, Stands n s p) :
    Sat (deleteRows indexes pending) s (fun _ t => Indexed n t) (fun _ _ => True) := by
  induction pending generalizing s with
  | nil => exact Sat.pure hs
  | cons p pending ih =>
    obtain ⟨id, old⟩ := p
    rw [map_cons, nodup_cons] at hids
    obtain ⟨⟨row, hrow, hold⟩, hrest⟩ := forall_mem_cons.mp hmem
    obtain ⟨l, m, hrows, hl, hm⟩ := rows_split hs.rowIds hrow
    unfold deleteRows
    apply Sat.bind
    have has : IndexedAs n s (l ++ (id, row) :: m) := hrows ▸ hs.toIndexedAs
    rw [← hindexes]
    refine (removeEntries_indexed has hl hold).mono ?_ (fun _ _ _ => trivial)
    rintro _ t ⟨hsame, ht⟩
    have htrows : t.rows = l ++ (id, row) :: m := by rw [hsame, hrows]
    have htindexes : t.indexes = s.indexes := by rw [hsame]
    apply Sat.bind
    apply Sat.modify
    rw [htrows, filter_ne hl hm, hindexes]
    refine ih hids.2 (s := { t with rows := l ++ m }) ?_ (htindexes.trans hindexes) ?_
    · refine ⟨ht.withRows _, ?_⟩
      have hnodup := hs.rowIds
      rw [hrows] at hnodup
      refine List.Nodup.sublist ?_ hnodup
      apply List.Sublist.map
      exact List.Sublist.append_left (sublist_cons_self _ _) l
    · intro p hp
      exact (hrest p hp).other hrows (fun heq => hids.1 (heq ▸ mem_map_of_mem hp)) (fun _ hq => hq)

/-! ### New indexes -/

theorem buildTree_ok {columns : List ℕ} {tree tree' : List (IndexKey × ValueId)}
    (h : buildTree storage columns rows tree = .ok tree') :
    tree'.Perm (entries rows columns ++ tree) ∧ ∀ p ∈ rows, HasKey p.2 columns := by
  induction rows generalizing tree with
  | nil =>
    cases h
    exact ⟨.refl _, by simp⟩
  | cons p rows ih =>
    obtain ⟨id, row⟩ := p
    unfold buildTree at h
    obtain ⟨key, hkey, h⟩ := bind_eq_ok.mp h
    obtain ⟨mid, hinsert, h⟩ := bind_eq_ok.mp h
    have hmid : mid = (keyOf row columns, id) :: tree := by
      unfold treeInsert at hinsert
      cases he : storage.entryError key id with
      | some msg =>
        rw [he] at hinsert
        cases hinsert
      | none =>
        rw [he] at hinsert
        cases hinsert
        rw [extractKey_ok hkey]
    obtain ⟨hperm, hkeys⟩ := ih h
    rw [hmid] at hperm
    exact ⟨hperm.trans perm_middle, forall_mem_cons.mpr ⟨⟨key, hkey⟩, hkeys⟩⟩

/-- The new index gets an id that no other index has, so its tree is a new one. -/
theorem IndexedAs.addIndex (h : IndexedAs n s rows) (index : IndexInfo)
    {generator : ContainerIdGenerator} {tree : List (IndexKey × ValueId)}
    (hid : s.generator.getTableId index.name = .ok (index.indexId, generator))
    (hname : ∀ i ∈ s.indexes, i.name ≠ index.name) (htree : tree.Perm (entries rows index.columns))
    (hkeys : ∀ p ∈ rows, HasKey p.2 index.columns) (hcolumns : ∀ c ∈ index.columns, c < n) :
    IndexedAs n { setTree { s with generator := generator } index.indexId tree with
      indexes := s.indexes ++ [index] } rows := by
  obtain ⟨hnew, hkeep⟩ := ContainerIdGenerator.getTableId_ok hid
  have hnames : ∀ i ∈ s.indexes, generator.getTableIdIfExists i.name = some i.indexId :=
    fun i hi => hkeep _ _ (h.names i hi)
  have hne : ∀ i ∈ s.indexes, i.indexId ≠ index.indexId := by
    intro i hi heq
    apply hname i hi
    apply ContainerIdGenerator.name_unique (hnames i hi)
    rw [heq]
    exact hnew
  refine ⟨?_, ?_, ?_, ?_, ?_⟩
  · intro i hi
    obtain hi | hi := mem_append.mp hi
    · obtain ⟨tree', htree', hperm⟩ := h.exact i hi
      exact ⟨tree', (if_neg (hne i hi)).trans htree', hperm⟩
    · cases mem_singleton.mp hi
      exact ⟨tree, if_pos rfl, htree⟩
  · intro i hi
    obtain hi | hi := mem_append.mp hi
    · exact h.keyed i hi
    · cases mem_singleton.mp hi
      exact hkeys
  · intro i hi
    obtain hi | hi := mem_append.mp hi
    · exact h.columns i hi
    · cases mem_singleton.mp hi
      exact hcolumns
  · intro i hi
    obtain hi | hi := mem_append.mp hi
    · exact hnames i hi
    · cases mem_singleton.mp hi
      exact hnew
  · rw [map_append, map_singleton, nodup_append]
    refine ⟨h.indexIds, nodup_singleton _, ?_⟩
    intro a ha b hb
    obtain ⟨i, hi, rfl⟩ := mem_map.mp ha
    cases mem_singleton.mp hb
    exact hne i hi

theorem indexColumns_lt {names : List String} {columns : List ℕ}
    (h : indexColumns schema names = .ok columns) :
    ∀ c ∈ columns, c < schema.attributes.length := by
  induction names generalizing columns with
  | nil =>
    cases h
    simp
  | cons name names ih =>
    unfold indexColumns at h
    split at h
    · cases h
    · rename_i i hi
      obtain ⟨rest, hrest, rfl⟩ := map_eq_ok.mp h
      exact forall_mem_cons.mpr ⟨(findIdx?_eq_some_iff_findIdx_eq.mp hi).1, ih hrest⟩

theorem getTableId_sat (name : String) (s : TableState) :
    Sat (getTableId name) s (fun i t => ∃ generator,
      s.generator.getTableId name = .ok (i, generator) ∧ t = { s with generator := generator })
      (fun _ _ => True) := by
  unfold Sat getTableId
  cases hid : s.generator.getTableId name with
  | error p => trivial
  | ok r => exact ⟨_, rfl, rfl⟩

theorem createIndex_indexed (tableName : String) (name : Option String) (columns : List String)
    (unique ifNotExists : Bool) :
    Keeps (Indexed schema.attributes.length)
      (createIndex storage tableName schema name columns unique ifNotExists) := by
  intro s hs
  unfold createIndex
  apply Sat.bind
  refine lift_sat (fun rawColumns hcolumns => ?_) (fun _ _ => trivial)
  apply Sat.bind
  apply Sat.get
  split_ifs with hexists hif
  · exact Sat.pure hs
  · exact Sat.throw trivial
  · apply Sat.bind
    refine (getTableId_sat _ s).mono ?_ (fun _ _ _ => trivial)
    rintro indexId t ⟨generator, hid, rfl⟩
    split_ifs
    · exact Sat.throw trivial
    · apply Sat.bind
      refine lift_sat (fun tree htree => ?_) (fun _ _ => trivial)
      apply Sat.bind
      apply Sat.modify
      apply Sat.modify
      obtain ⟨hperm, hkeys⟩ := buildTree_ok htree
      rw [append_nil] at hperm
      refine ⟨hs.toIndexedAs.addIndex ⟨indexId, _, s.tableId, rawColumns, unique⟩ hid ?_ hperm
        hkeys (indexColumns_lt hcolumns), hs.rowIds⟩
      intro i hi heq
      apply hexists
      rw [any_eq_true]
      exact ⟨i, hi, by simpa using heq⟩

end CrustyDB
