import CrustyDB.Server.InsertRows

/-! # The types of the stored tuples

Every tuple of a table should have the columns of the schema, each `NULL` or of the column's type
(`TableTyped`).  The validation of an insert compares the columns that both the record and the
schema have, an update assigns any literal to any column, and a record of a CSV file is cut to the
columns that both have.  So the property is kept by inserts whose rows have the right number of
values (`importTuples_typed_rows`), by updates whose literals fit their columns (`updateRows_typed`),
and by imports whose records have enough columns (`importCsv_typed`); `TableRuns.lean` puts them
together. -/

namespace CrustyDB

open Stateful List

variable {storage : Storage} {schema : TableSchema}

/-- The tuple has the columns of the schema. -/
def RowFits (schema : TableSchema) (row : Row) : Prop :=
  List.Forall₂ (fun f (attr : Attribute) => f.Fits attr.dtype) row schema.attributes

def TableTyped (schema : TableSchema) (s : TableState) : Prop := ∀ p ∈ s.rows, RowFits schema p.2

/-! ### The validation -/

variable {rows : List Row} {row : Row}

theorem ofType_of_typeMatches {dtype : DataType} {f : Field} (h : typeMatches dtype f = true) :
    f.ofType dtype = true := by
  cases dtype <;> cases f <;> first | rfl | cases h

theorem fits_of_cellIssues {j : ℕ} {f : Field} {attr : Attribute} (h : cellIssues j f attr = []) :
    f.Fits attr.dtype := by
  unfold cellIssues typeIssues at h
  by_cases hf : f = .null
  · exact .inl hf
  · rw [if_neg hf] at h
    split_ifs at h with hmatch
    exact .inr (ofType_of_typeMatches hmatch)

theorem rowFits_of_rowIssues {j : ℕ} {attrs : List Attribute} (hlen : row.length = attrs.length)
    (h : rowIssues j row attrs = []) :
    List.Forall₂ (fun f (attr : Attribute) => f.Fits attr.dtype) row attrs := by
  induction row generalizing j attrs with
  | nil =>
    cases attrs with
    | nil => exact .nil
    | cons attr attrs => simp at hlen
  | cons f row ih =>
    cases attrs with
    | nil => simp at hlen
    | cons attr attrs =>
      rw [rowIssues, append_eq_nil_iff] at h
      exact .cons (fits_of_cellIssues h.1) (ih (by simpa using hlen) h.2)

/-! ### The statements -/

/-- What a statement keeps, whether it returns or not being of no matter. -/
abbrev Keeps {α : Type} (I : TableState → Prop) (x : Stmt α) : Prop :=
  ∀ s, I s → Sat x s (fun _ t => I t) (fun _ _ => True)

theorem insertValidatedTuples_typed {tuples : List Row} (h : ∀ row ∈ tuples, RowFits schema row) :
    Keeps (TableTyped schema) (insertValidatedTuples storage tuples) := by
  intro s hs
  refine (insertValidatedTuples_sat tuples s).mono ?_ (fun _ _ _ => trivial)
  rintro n t ⟨-, vs, hlen, hrows⟩ p hp
  rw [hrows, mem_append] at hp
  obtain hp | hp := hp
  · exact hs p hp
  · exact h p.2 (of_mem_zip hp).2

theorem importTuples_typed_rows {values : List (List InsertExpr)}
    (h : ∀ row ∈ values, row.length = schema.attributes.length) :
    Keeps (TableTyped schema) (importTuples storage schema values) := by
  intro s hs
  by_cases hread : AllRead values
  · unfold Sat
    rw [importTuples_read storage schema hread]
    cases hsurv : survivors schema (values.map readFields) with
    | error e => trivial
    | ok rows =>
      apply insertValidatedTuples_typed _ s hs
      intro row hrow
      obtain ⟨hmem, hvalid⟩ := (survivors_valid hsurv).2 row hrow
      obtain ⟨values', hvalues, rfl⟩ := mem_map.mp hmem
      apply rowFits_of_rowIssues _ hvalid
      rw [readFields_length (allRead_iff.mp hread values' hvalues), h values' hvalues]
  · obtain ⟨e, herr, -⟩ := importTuples_unread storage schema hread s
    exact Sat.of_error herr trivial

variable {parseDate : String → Option Int64} {records : List (Except String (List String))}
  {columns : List (ℕ × Field)}

theorem convertToTuple_fits {record : List String} {attrs : List Attribute}
    (hlen : attrs.length ≤ record.length) (h : convertToTuple parseDate record attrs = .ok row) :
    List.Forall₂ (fun f (attr : Attribute) => f.Fits attr.dtype) row attrs := by
  induction record generalizing attrs row with
  | nil =>
    cases attrs with
    | nil =>
      cases h
      exact .nil
    | cons attr attrs => simp at hlen
  | cons text record ih =>
    cases attrs with
    | nil =>
      cases h
      exact .nil
    | cons attr attrs =>
      unfold convertToTuple at h
      obtain ⟨f, hf, h⟩ := bind_eq_ok.mp h
      obtain ⟨fields, hrest, h⟩ := bind_eq_ok.mp h
      cases h
      exact .cons (Field.fromStr_fits hf) (ih (by simpa using hlen) hrest)

section

variable (hlen : ∀ record, .ok record ∈ records → schema.attributes.length ≤ record.length)
include hlen

theorem readChunk_fits {k : ℕ} {rest : List (Except String (List String))}
    (h : readChunk parseDate schema k records = .ok (rows, rest)) :
    (∀ row ∈ rows, RowFits schema row) ∧ ∀ r ∈ rest, r ∈ records := by
  induction k generalizing records rows with
  | zero =>
    cases h
    exact ⟨by simp, fun _ hr => hr⟩
  | succ k ih =>
    cases records with
    | nil =>
      cases h
      exact ⟨by simp, fun _ hr => hr⟩
    | cons r records =>
      unfold readChunk at h
      cases r with
      | error e => cases h
      | ok record =>
        cases hrow : convertToTuple parseDate record schema.attributes with
        | error e =>
          simp only [bind, Except.bind, hrow] at h
          cases h
        | ok row =>
          cases hmore : readChunk parseDate schema k records with
          | error e =>
            simp only [bind, Except.bind, hrow, hmore] at h
            cases h
          | ok more =>
            obtain ⟨rows', rest'⟩ := more
            simp only [bind, Except.bind, hrow, hmore] at h
            cases h
            obtain ⟨hfits, hmem⟩ :=
              ih (fun r hr => hlen r (mem_cons_of_mem _ hr)) hmore
            refine ⟨?_, fun r hr => mem_cons_of_mem _ (hmem r hr)⟩
            rw [forall_mem_cons]
            exact ⟨convertToTuple_fits (hlen record mem_cons_self) hrow, hfits⟩

end

/-- An import inserts chunk after chunk; `R` is what is known of the records. -/
theorem importRecords_keeps {I : TableState → Prop} {R : Except String (List String) → Prop}
    (hchunk : ∀ k records rows rest, (∀ r ∈ records, R r) →
      readChunk parseDate schema k records = .ok (rows, rest) →
        Keeps I (insertValidatedTuples storage rows) ∧ ∀ r ∈ rest, R r)
    (hrecords : ∀ r ∈ records, R r) (fuel : ℕ) :
    Keeps I (importRecordsFromReader storage parseDate schema fuel records) := by
  induction fuel generalizing records with
  | zero => exact fun s hs => Sat.pure hs
  | succ fuel ih =>
    intro s hs
    unfold importRecordsFromReader
    split
    · exact Sat.throw trivial
    · exact Sat.throw trivial
    · rename_i rows rest hread
      obtain ⟨hkeeps, hrest⟩ := hchunk _ _ _ _ hrecords hread
      split_ifs
      · exact Sat.pure hs
      · apply Sat.bind
        refine (hkeeps s hs).mono ?_ (fun _ _ _ => trivial)
        intro n t ht
        apply Sat.bind
        refine (ih hrest t ht).mono ?_ (fun _ _ _ => trivial)
        exact fun m t' ht' => Sat.pure ht'

theorem importCsv_keeps {I : TableState → Prop} {R : Except String (List String) → Prop}
    (hchunk : ∀ k records rows rest, (∀ r ∈ records, R r) →
      readChunk parseDate schema k records = .ok (rows, rest) →
        Keeps I (insertValidatedTuples storage rows) ∧ ∀ r ∈ rest, R r)
    (hrecords : ∀ r ∈ records, R r) : Keeps I (importCsv storage parseDate schema records) := by
  intro s hs
  have h := importRecords_keeps hchunk hrecords (records.length + 1) s hs
  unfold Sat importCsv
  cases hrun : importRecordsFromReader storage parseDate schema (records.length + 1) records s with
  | ok n t => exact h.ok hrun
  | error e t => trivial

theorem importCsv_typed
    (hlen : ∀ record, .ok record ∈ records → schema.attributes.length ≤ record.length) :
    Keeps (TableTyped schema) (importCsv storage parseDate schema records) := by
  refine importCsv_keeps (R := fun r => ∀ record, r = .ok record →
    schema.attributes.length ≤ record.length) ?_ (fun r hr record heq => hlen record (heq ▸ hr))
  intro k records rows rest hrecords hread
  obtain ⟨hfits, hmem⟩ := readChunk_fits (fun record hr => hrecords _ hr record rfl) hread
  exact ⟨insertValidatedTuples_typed hfits, fun r hr => hrecords r (hmem r hr)⟩

theorem forall₂_set_left {α β : Type} {R : α → β → Prop} {l : List α} {l' : List β} {i : ℕ} {a : α}
    (h : List.Forall₂ R l l') (ha : ∀ b, l'[i]? = some b → R a b) : List.Forall₂ R (l.set i a) l' := by
  induction h generalizing i with
  | nil => exact .nil
  | cons hab _ ih =>
    cases i with
    | zero => exact .cons (ha _ rfl) ‹_›
    | succ i => exact .cons hab (ih (fun b hb => ha b (by simpa using hb)))

theorem setFields_fits {row' : Row} (hrow : RowFits schema row)
    (hfits : ∀ p ∈ columns, ∀ attr, schema.attributes[p.1]? = some attr → p.2.Fits attr.dtype)
    (h : setFields columns row = .ok row') : RowFits schema row' := by
  induction columns generalizing row with
  | nil =>
    cases h
    exact hrow
  | cons p columns ih =>
    obtain ⟨i, f⟩ := p
    obtain ⟨hf, hrest⟩ := forall_mem_cons.mp hfits
    unfold setFields at h
    split_ifs at h
    exact ih (forall₂_set_left hrow hf) hrest h

theorem assignmentColumns_mem {assignments : List (String × Field)}
    (h : assignmentColumns schema assignments = .ok columns) :
    ∀ p ∈ columns, ∃ name, (name, p.2) ∈ assignments ∧ schema.getFieldIndex name = some p.1 := by
  induction assignments generalizing columns with
  | nil =>
    cases h
    simp
  | cons q assignments ih =>
    obtain ⟨name, f⟩ := q
    obtain ⟨i, rest, hi, hrest, rfl⟩ := assignmentColumns_cons h
    rw [forall_mem_cons]
    refine ⟨⟨name, mem_cons_self, hi⟩, ?_⟩
    intro p hp
    obtain ⟨name', hmem, hname'⟩ := ih hrest p hp
    exact ⟨name', mem_cons_of_mem _ hmem, hname'⟩

theorem updateValue_typed (hrow : RowFits schema row) (id : ValueId) :
    Keeps (TableTyped schema) (updateValue storage row id) := by
  intro s hs
  unfold Sat updateValue
  cases storage.replace s.rows id row with
  | error msg => trivial
  | ok v =>
    intro p hp
    obtain ⟨q, hq, rfl⟩ := mem_map.mp hp
    split_ifs
    · exact hrow
    · exact hs q hq

theorem updateRows_typed {indexes : List IndexInfo} {pending : List (ValueId × Row)}
    (hfits : ∀ p ∈ columns, ∀ attr, schema.attributes[p.1]? = some attr → p.2.Fits attr.dtype)
    (hpending : ∀ p ∈ pending, RowFits schema p.2) :
    Keeps (TableTyped schema) (updateRows storage columns indexes pending) := by
  induction pending with
  | nil => exact fun s hs => Sat.pure hs
  | cons p pending ih =>
    obtain ⟨id, row⟩ := p
    obtain ⟨hrow, hrest⟩ := forall_mem_cons.mp hpending
    intro s hs
    unfold updateRows
    apply Sat.bind
    refine lift_sat ?_ (fun _ _ => trivial)
    intro tuple htuple
    apply Sat.bind
    refine (updateValue_typed (setFields_fits hrow hfits htuple) id s hs).mono ?_
      (fun _ _ _ => trivial)
    intro id' t ht
    apply Sat.bind
    refine (moveEntries_rows row tuple id id' indexes t).mono ?_ (fun _ _ _ => trivial)
    intro _ t' ht'
    apply ih hrest
    intro p hp
    rw [ht'] at hp
    exact ht p hp

theorem assignments_fit {assignments : List (String × Field)}
    (hfits : ∀ p ∈ assignments, ∀ i attr, schema.getFieldIndex p.1 = some i →
      schema.attributes[i]? = some attr → p.2.Fits attr.dtype)
    (hcolumns : assignmentColumns schema assignments = .ok columns) :
    ∀ p ∈ columns, ∀ attr, schema.attributes[p.1]? = some attr → p.2.Fits attr.dtype := by
  intro p hp attr hattr
  obtain ⟨name, hmem, hname⟩ := assignmentColumns_mem hcolumns p hp
  exact hfits _ hmem _ attr hname hattr

end CrustyDB
