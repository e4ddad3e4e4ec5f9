import CrustyDB.Index.NodeEntries

/-! # CBOR entries of a single-column index

The encoding that `serde_cbor` gives the entries of an index over one `BigInt` column: structures
and enum variants are maps with their names as text keys, `None` is null, and an integer takes
one, two, three, five or nine bytes.  `cbor` is a codec for these entries (it refuses others);
`cbor_roundTrips` and `cbor_small` are the facts about the serialiser that the index relies on. -/

namespace CrustyDB

open Option

namespace Cbor

/-! ### Integers -/

/-- Big-endian bytes of `n`, `w` of them. -/
def beBytes : ℕ → ℕ → List UInt8
  | 0, _ => []
  | w + 1, n => UInt8.ofNat (n / 256 ^ w) :: beBytes w n

/-- The head of a data item of major type `major / 32` with argument `n`. -/
def head (major n : ℕ) : List UInt8 :=
  if n < 24 then [UInt8.ofNat (major + n)]
  else if n < 256 then UInt8.ofNat (major + 24) :: beBytes 1 n
  else if n < 65536 then UInt8.ofNat (major + 25) :: beBytes 2 n
  else if n < 4294967296 then UInt8.ofNat (major + 26) :: beBytes 4 n
  else UInt8.ofNat (major + 27) :: beBytes 8 n

/-- Read `w` big-endian bytes. -/
def takeBe : ℕ → ℕ → List UInt8 → Option (ℕ × List UInt8)
  | 0, acc, bs => some (acc, bs)
  | _ + 1, _, [] => none
  | w + 1, acc, b :: bs => takeBe w (256 * acc + b.toNat) bs

/-- The argument that follows an additional information of `info`. -/
def argument (info : ℕ) (bs : List UInt8) : Option (ℕ × List UInt8) :=
  if info < 24 then some (info, bs)
  else if info = 24 then takeBe 1 0 bs
  else if info = 25 then takeBe 2 0 bs
  else if info = 26 then takeBe 4 0 bs
  else if info = 27 then takeBe 8 0 bs
  else none

/-- Major type and argument of the next data item. -/
def takeHead : List UInt8 → Option ((ℕ × ℕ) × List UInt8)
  | [] => none
  | b :: bs => (argument (b.toNat % 32) bs).map (fun r => ((b.toNat / 32, r.1), r.2))

def encodeUint (n : ℕ) : List UInt8 := head 0 n

def takeUint (bs : List UInt8) : Option (ℕ × List UInt8) :=
  match takeHead bs with
  | some ((0, n), rest) => some (n, rest)
  | _ => none

def encodeInt64 (v : Int64) : List UInt8 :=
  if 0 ≤ v.toInt then head 0 v.toInt.toNat else head 32 (-1 - v.toInt).toNat

def takeInt64 (bs : List UInt8) : Option (Int64 × List UInt8) :=
  match takeHead bs with
  | some ((0, n), rest) => some (Int64.ofInt n, rest)
  | some ((1, n), rest) => some (Int64.ofInt (-1 - n), rest)
  | _ => none

/-- Null. -/
def null : UInt8 := 246

def encodeOption (v : Option ℕ) : List UInt8 :=
  match v with
  | none => [null]
  | some n => encodeUint n

def takeOption : List UInt8 → Option (Option ℕ × List UInt8)
  | [] => none
  | b :: bs =>
    if b = null then some (none, bs) else (takeUint (b :: bs)).map (fun r => (some r.1, r.2))

/-! ### The texts of an entry -/

/-- The map of a variant: `{"Leaf": {"key": [{"BigInt": ..` up to the integer. -/
def leafStart : List UInt8 :=
  [0xa1, 0x64, 0x4c, 0x65, 0x61, 0x66, 0xa2, 0x63, 0x6b, 0x65, 0x79,
    0x81, 0xa1, 0x66, 0x42, 0x69, 0x67, 0x49, 0x6e, 0x74]

/-- `"rid": {"container_id":` -/
def ridText : List UInt8 :=
  [0x63, 0x72, 0x69, 0x64, 0xa4,
    0x6c, 0x63, 0x6f, 0x6e, 0x74, 0x61, 0x69, 0x6e, 0x65, 0x72, 0x5f, 0x69, 0x64]

/-- `"segment_id":` -/
def segmentText : List UInt8 := [0x6a, 0x73, 0x65, 0x67, 0x6d, 0x65, 0x6e, 0x74, 0x5f, 0x69, 0x64]

/-- `"page_id":` -/
def pageText : List UInt8 := [0x67, 0x70, 0x61, 0x67, 0x65, 0x5f, 0x69, 0x64]

/-- `"slot_id":` -/
def slotText : List UInt8 := [0x67, 0x73, 0x6c, 0x6f, 0x74, 0x5f, 0x69, 0x64]

/-- `{"Meta": {"is_leaf":` -/
def metaStart : List UInt8 :=
  [0xa1, 0x64, 0x4d, 0x65, 0x74, 0x61, 0xa3, 0x67, 0x69, 0x73, 0x5f, 0x6c, 0x65, 0x61, 0x66]

/-- `"left_sibling":` -/
def leftText : List UInt8 :=
  [0x6c, 0x6c, 0x65, 0x66, 0x74, 0x5f, 0x73, 0x69, 0x62, 0x6c, 0x69, 0x6e, 0x67]

/-- `"right_sibling":` -/
def rightText : List UInt8 :=
  [0x6d, 0x72, 0x69, 0x67, 0x68, 0x74, 0x5f, 0x73, 0x69, 0x62, 0x6c, 0x69, 0x6e, 0x67]

/-- `{"Internal": {"key":` -/
def internalStart : List UInt8 :=
  [0xa1, 0x68, 0x49, 0x6e, 0x74, 0x65, 0x72, 0x6e, 0x61, 0x6c, 0xa2, 0x63, 0x6b, 0x65, 0x79]

/-- `[{"BigInt":` up to the integer. -/
def bigIntStart : List UInt8 := [0x81, 0xa1, 0x66, 0x42, 0x69, 0x67, 0x49, 0x6e, 0x74]

/-- `"child":` -/
def childText : List UInt8 := [0x65, 0x63, 0x68, 0x69, 0x6c, 0x64]

/-- Drop an expected text. -/
def strip : List UInt8 → List UInt8 → Option (List UInt8)
  | [], bs => some bs
  | _ :: _, [] => none
  | t :: ts, b :: bs => if t = b then strip ts bs else none

/-! ### Entries -/

def encodeRid (v : ValueId) : List UInt8 :=
  ridText ++ (encodeUint v.containerId.toNat ++ (segmentText ++
    (encodeOption (v.segmentId.map UInt8.toNat) ++ (pageText ++
    (encodeOption (v.pageId.map UInt32.toNat) ++ (slotText ++
    encodeOption (v.slotId.map UInt16.toNat)))))))

def takeRid (bs : List UInt8) : Option (ValueId × List UInt8) := do
  let bs ← strip ridText bs
  let (containerId, bs) ← takeUint bs
  let bs ← strip segmentText bs
  let (segmentId, bs) ← takeOption bs
  let bs ← strip pageText bs
  let (pageId, bs) ← takeOption bs
  let bs ← strip slotText bs
  let (slotId, bs) ← takeOption bs
  pure (⟨UInt16.ofNat containerId, segmentId.map UInt8.ofNat, pageId.map UInt32.ofNat,
    slotId.map UInt16.ofNat⟩, bs)

/-- `false` and `true`. -/
def encodeBool (b : Bool) : UInt8 := if b then 245 else 244

def toVec : NodeEntry → Option (List UInt8)
  | .metadata isLeaf left right =>
    some (metaStart ++ (encodeBool isLeaf :: (leftText ++
      (encodeOption (left.map UInt32.toNat) ++ (rightText ++
      encodeOption (right.map UInt32.toNat))))))
  | .internal none child =>
    some (internalStart ++ (null :: (childText ++ encodeUint child.toNat)))
  | .internal (some [.bigInt v]) child =>
    some (internalStart ++ (bigIntStart ++ (encodeInt64 v ++ (childText ++
      encodeUint child.toNat))))
  | .leaf [.bigInt v] rid => some (leafStart ++ (encodeInt64 v ++ encodeRid rid))
  | _ => none

def takeMeta (bs : List UInt8) : Option NodeEntry := do
  let bs ← strip metaStart bs
  match bs with
  | [] => none
  | b :: bs => do
    let bs ← strip leftText bs
    let (left, bs) ← takeOption bs
    let bs ← strip rightText bs
    let (right, _) ← takeOption bs
    pure (.metadata (b == 245) (left.map UInt32.ofNat) (right.map UInt32.ofNat))

/-- The part of an internal entry after its key. -/
def takeChild (key : Option IndexKey) (bs : List UInt8) : Option NodeEntry := do
  let bs ← strip childText bs
  let (child, _) ← takeUint bs
  pure (.internal key (UInt32.ofNat child))

def takeInternal (bs : List UInt8) : Option NodeEntry := do
  let bs ← strip internalStart bs
  match bs with
  | [] => none
  | b :: rest =>
    if b = null then takeChild none rest
    else do
      let bs ← strip bigIntStart (b :: rest)
      let (v, bs) ← takeInt64 bs
      takeChild (some [.bigInt v]) bs

def takeLeaf (bs : List UInt8) : Option NodeEntry := do
  let bs ← strip leafStart bs
  let (v, bs) ← takeInt64 bs
  let (rid, _) ← takeRid bs
  pure (.leaf [.bigInt v] rid)

/-- The variants are told apart by the name after the map head. -/
def fromSlice (bs : List UInt8) : Option NodeEntry :=
  (takeLeaf bs).orElse (fun _ => (takeMeta bs).orElse (fun _ => takeInternal bs))

/-! ### Reading back -/

theorem takeBe_beBytes (w acc n : ℕ) (rest : List UInt8) :
    takeBe w acc (beBytes w n ++ rest) = some (256 ^ w * acc + n % 256 ^ w, rest) := by
  induction w generalizing acc with
  | zero =>
    show some (acc, rest) = _
    rw [pow_zero, Nat.mod_one, one_mul, add_zero]
  | succ w ih =>
    show takeBe w (256 * acc + (UInt8.ofNat (n / 256 ^ w)).toNat) (beBytes w n ++ rest) = _
    have hmod : n % 256 ^ (w + 1) = n % 256 ^ w + 256 ^ w * (n / 256 ^ w % 256) := by
      rw [pow_succ, Nat.mod_mul]
    rw [ih, UInt8.toNat_ofNat', hmod, pow_succ 256 w, show (2 : ℕ) ^ 8 = 256 from rfl]
    congr 2
    ring

theorem takeHead_cons {m i : ℕ} (hm : m < 8) (hi : i < 32) (bs : List UInt8) :
    takeHead (UInt8.ofNat (32 * m + i) :: bs) =
      (argument i bs).map (fun r => ((m, r.1), r.2)) := by
  have hb : (UInt8.ofNat (32 * m + i)).toNat = 32 * m + i := by
    rw [UInt8.toNat_ofNat']
    omega
  show (argument ((UInt8.ofNat (32 * m + i)).toNat % 32) bs).map _ = _
  rw [hb, show (32 * m + i) % 32 = i by omega, show (32 * m + i) / 32 = m by omega]

theorem takeHead_head {m n : ℕ} (hm : m < 8) (hn : n < 2 ^ 64) (rest : List UInt8) :
    takeHead (head (32 * m) n ++ rest) = some ((m, n), rest) := by
  unfold head
  split_ifs with h1 h2 h3 h4
  · rw [List.singleton_append, takeHead_cons hm (by omega)]
    unfold argument
    rw [if_pos h1]
    rfl
  · rw [List.cons_append, takeHead_cons hm (by omega)]
    show (takeBe 1 0 (beBytes 1 n ++ rest)).map _ = _
    rw [takeBe_beBytes, Nat.mod_eq_of_lt (by omega)]
    simp
  · rw [List.cons_append, takeHead_cons hm (by omega)]
    show (takeBe 2 0 (beBytes 2 n ++ rest)).map _ = _
    rw [takeBe_beBytes, Nat.mod_eq_of_lt (by omega)]
    simp
  · rw [List.cons_append, takeHead_cons hm (by omega)]
    show (takeBe 4 0 (beBytes 4 n ++ rest)).map _ = _
    rw [takeBe_beBytes, Nat.mod_eq_of_lt (by omega)]
    simp
  · rw [List.cons_append, takeHead_cons hm (by omega)]
    show (takeBe 8 0 (beBytes 8 n ++ rest)).map _ = _
    rw [takeBe_beBytes, Nat.mod_eq_of_lt (by omega)]
    simp

@[simp] theorem takeUint_encodeUint {n : ℕ} (hn : n < 2 ^ 64) (rest : List UInt8) :
    takeUint (encodeUint n ++ rest) = some (n, rest) := by
  unfold takeUint encodeUint
  rw [show (0 : ℕ) = 32 * 0 from rfl, takeHead_head (by omega) hn]
  rfl

@[simp] theorem takeInt64_encodeInt64 (v : Int64) (rest : List UInt8) :
    takeInt64 (encodeInt64 v ++ rest) = some (v, rest) := by
  have hlo := v.le_toInt
  have hhi := v.toInt_lt
  unfold takeInt64 encodeInt64
  split_ifs with h
  · rw [show (0 : ℕ) = 32 * 0 from rfl, takeHead_head (by omega) (by omega)]
    simp only [Int.toNat_of_nonneg h, Int64.ofInt_toInt]
  · rw [show (32 : ℕ) = 32 * 1 from rfl, takeHead_head (by omega) (by omega)]
    simp only
    rw [Int.toNat_of_nonneg (by omega), show -1 - (-1 - v.toInt) = v.toInt by omega,
      Int64.ofInt_toInt]

theorem head_length (major n : ℕ) : 1 ≤ (head major n).length ∧ (head major n).length ≤ 9 ∧
    (n < 256 → (head major n).length ≤ 2) ∧ (n < 65536 → (head major n).length ≤ 3) ∧
    (n < 4294967296 → (head major n).length ≤ 5) := by
  unfold head
  split_ifs <;> simp [beBytes] <;> omega

/-- An integer does not start like null. -/
theorem encodeUint_cons (n : ℕ) : ∃ b bs, encodeUint n = b :: bs ∧ b ≠ null := by
  unfold encodeUint head
  split_ifs with h1 h2 h3 h4
  · refine ⟨_, _, rfl, fun h => ?_⟩
    have := congrArg UInt8.toNat h
    rw [UInt8.toNat_ofNat', show null.toNat = 246 from rfl] at this
    omega
  · exact ⟨_, _, rfl, by decide⟩
  · exact ⟨_, _, rfl, by decide⟩
  · exact ⟨_, _, rfl, by decide⟩
  · exact ⟨_, _, rfl, by decide⟩

theorem takeOption_encodeOption {v : Option ℕ} (hv : ∀ n, v = some n → n < 2 ^ 64)
    (rest : List UInt8) : takeOption (encodeOption v ++ rest) = some (v, rest) := by
  cases v with
  | none => rfl
  | some n =>
    obtain ⟨b, bs, hb, hne⟩ := encodeUint_cons n
    have htake := takeUint_encodeUint (hv n rfl) rest
    show takeOption (encodeUint n ++ rest) = _
    rw [hb, List.cons_append] at htake ⊢
    unfold takeOption
    simp only [hne, if_false, htake, map_some]

theorem strip_append (ts bs : List UInt8) : strip ts (ts ++ bs) = some bs := by
  induction ts with
  | nil => rfl
  | cons t ts ih =>
    rw [List.cons_append, strip, if_pos rfl]
    exact ih

theorem encodeOption_length {v : Option ℕ} : 1 ≤ (encodeOption v).length ∧
    ((∀ n, v = some n → n < 256) → (encodeOption v).length ≤ 2) ∧
    ((∀ n, v = some n → n < 65536) → (encodeOption v).length ≤ 3) ∧
    ((∀ n, v = some n → n < 4294967296) → (encodeOption v).length ≤ 5) := by
  cases v with
  | none => simp [encodeOption]
  | some n =>
    have h := head_length 0 n
    refine ⟨h.1, fun hv => h.2.2.1 (hv n rfl), fun hv => h.2.2.2.1 (hv n rfl),
      fun hv => h.2.2.2.2 (hv n rfl)⟩

/-! ### Record ids and page ids -/

theorem pageId_lt (v : Option PageId) (n : ℕ) (h : v.map UInt32.toNat = some n) : n < 4294967296 := by
  obtain ⟨p, -, rfl⟩ := map_eq_some_iff.mp h
  exact p.toNat_lt

theorem takeOption_pageId (v : Option PageId) (rest : List UInt8) :
    takeOption (encodeOption (v.map UInt32.toNat) ++ rest) = some (v.map UInt32.toNat, rest) :=
  takeOption_encodeOption (fun n h => (pageId_lt v n h).trans (by decide)) rest

theorem map_ofNat_toNat (v : Option PageId) : (v.map UInt32.toNat).map UInt32.ofNat = v := by
  rw [map_map, show UInt32.ofNat ∘ UInt32.toNat = id from funext (fun p => UInt32.ofNat_toNat),
    map_id_fun, id]

theorem takeRid_encodeRid (v : ValueId) (rest : List UInt8) :
    takeRid (encodeRid v ++ rest) = some (v, rest) := by
  have hc : v.containerId.toNat < 2 ^ 64 := v.containerId.toNat_lt.trans (by decide)
  have hseg : ∀ n, v.segmentId.map UInt8.toNat = some n → n < 2 ^ 64 := by
    intro n h
    obtain ⟨p, -, rfl⟩ := map_eq_some_iff.mp h
    exact p.toNat_lt.trans (by decide)
  have hslot : ∀ n, v.slotId.map UInt16.toNat = some n → n < 2 ^ 64 := by
    intro n h
    obtain ⟨p, -, rfl⟩ := map_eq_some_iff.mp h
    exact p.toNat_lt.trans (by decide)
  have hsegid : (v.segmentId.map UInt8.toNat).map UInt8.ofNat = v.segmentId := by
    rw [map_map, show UInt8.ofNat ∘ UInt8.toNat = id from funext (fun p => UInt8.ofNat_toNat),
      map_id_fun, id]
  have hslotid : (v.slotId.map UInt16.toNat).map UInt16.ofNat = v.slotId := by
    rw [map_map,
      show UInt16.ofNat ∘ UInt16.toNat = id from funext (fun p => UInt16.ofNat_toNat),
      map_id_fun, id]
  unfold takeRid encodeRid
  simp only [List.append_assoc, strip_append, bind_eq_bind, bind_some,
    takeUint_encodeUint hc, takeOption_encodeOption hseg, takeOption_pageId,
    takeOption_encodeOption hslot, UInt16.ofNat_toNat, hsegid, map_ofNat_toNat, hslotid]
  rfl

theorem encodeRid_length (v : ValueId) :
    49 ≤ (encodeRid v).length ∧ (encodeRid v).length ≤ 58 := by
  have hc := (head_length 0 v.containerId.toNat)
  have hc' := hc.2.2.2.1 v.containerId.toNat_lt
  have hseg := (encodeOption_length (v := v.segmentId.map UInt8.toNat))
  have hseg' := hseg.2.1 (fun n h => by
    obtain ⟨p, -, rfl⟩ := map_eq_some_iff.mp h
    exact p.toNat_lt)
  have hpage := (encodeOption_length (v := v.pageId.map UInt32.toNat))
  have hpage' := hpage.2.2.2 (pageId_lt v.pageId)
  have hslot := (encodeOption_length (v := v.slotId.map UInt16.toNat))
  have hslot' := hslot.2.2.1 (fun n h => by
    obtain ⟨p, -, rfl⟩ := map_eq_some_iff.mp h
    exact p.toNat_lt)
  have h0 := hc.1
  unfold encodeRid encodeUint
  simp only [List.length_append, show ridText.length = 18 from rfl,
    show segmentText.length = 11 from rfl, show pageText.length = 8 from rfl,
    show slotText.length = 8 from rfl]
  omega

theorem encodeInt64_length (v : Int64) :
    1 ≤ (encodeInt64 v).length ∧ (encodeInt64 v).length ≤ 9 := by
  unfold encodeInt64
  split_ifs
  · exact ⟨(head_length _ _).1, (head_length _ _).2.1⟩
  · exact ⟨(head_length _ _).1, (head_length _ _).2.1⟩

end Cbor

/-- The codec of single-column entries. -/
def cbor : Codec := ⟨Cbor.toVec, Cbor.fromSlice⟩

open Cbor

theorem cbor_leaf (v : Int64) (rid : ValueId) :
    fromSlice (leafStart ++ (encodeInt64 v ++ encodeRid rid)) = some (.leaf [.bigInt v] rid) := by
  have hrid : takeRid (encodeRid rid) = some (rid, []) := by
    have := takeRid_encodeRid rid []
    rwa [List.append_nil] at this
  have htake : takeLeaf (leafStart ++ (encodeInt64 v ++ encodeRid rid)) =
      some (.leaf [.bigInt v] rid) := by
    unfold takeLeaf
    simp only [strip_append, bind_eq_bind, bind_some, takeInt64_encodeInt64, hrid]
    rfl
  unfold fromSlice
  rw [htake]
  rfl

theorem cbor_meta (isLeaf : Bool) (l r : Option PageId) :
    fromSlice (metaStart ++ (encodeBool isLeaf :: (leftText ++
      (encodeOption (l.map UInt32.toNat) ++ (rightText ++ encodeOption (r.map UInt32.toNat)))))) =
      some (.metadata isLeaf l r) := by
  have hlast : takeOption (encodeOption (r.map UInt32.toNat)) = some (r.map UInt32.toNat, []) := by
    have := takeOption_pageId r []
    rwa [List.append_nil] at this
  have hbool : (encodeBool isLeaf == 245) = isLeaf := by
    cases isLeaf <;> rfl
  have htake : takeMeta (metaStart ++ (encodeBool isLeaf :: (leftText ++
      (encodeOption (l.map UInt32.toNat) ++ (rightText ++ encodeOption (r.map UInt32.toNat)))))) =
      some (.metadata isLeaf l r) := by
    unfold takeMeta
    simp only [strip_append, bind_eq_bind, bind_some, takeOption_pageId, hlast, hbool,
      map_ofNat_toNat]
    rfl
  unfold fromSlice
  rw [htake]
  rfl

theorem takeChild_childText (key : Option IndexKey) (child : PageId) :
    takeChild key (childText ++ encodeUint child.toNat) = some (.internal key child) := by
  have hlast : takeUint (encodeUint child.toNat) = some (child.toNat, []) := by
    have := takeUint_encodeUint (child.toNat_lt.trans (by decide)) []
    rwa [List.append_nil] at this
  unfold takeChild
  simp only [strip_append, bind_eq_bind, bind_some, hlast, UInt32.ofNat_toNat]
  rfl

theorem cbor_internal_none (child : PageId) :
    fromSlice (internalStart ++ (null :: (childText ++ encodeUint child.toNat))) =
      some (.internal none child) := by
  have htake : takeInternal (internalStart ++ (null :: (childText ++ encodeUint child.toNat))) =
      some (.internal none child) := by
    unfold takeInternal
    simp only [strip_append, bind_eq_bind, bind_some, if_true]
    exact takeChild_childText none child
  unfold fromSlice
  rw [htake]
  rfl

theorem cbor_internal_some (v : Int64) (child : PageId) :
    fromSlice (internalStart ++ (bigIntStart ++ (encodeInt64 v ++ (childText ++
      encodeUint child.toNat)))) = some (.internal (some [.bigInt v]) child) := by
  have htake : takeInternal (internalStart ++ (bigIntStart ++ (encodeInt64 v ++ (childText ++
      encodeUint child.toNat)))) = some (.internal (some [.bigInt v]) child) := by
    have hrest := takeChild_childText (some [.bigInt v]) child
    have hint := takeInt64_encodeInt64 v (childText ++ encodeUint child.toNat)
    unfold takeInternal
    rw [strip_append]
    show (takeInt64 (encodeInt64 v ++ _)).bind _ = _
    rw [hint]
    exact hrest
  unfold fromSlice
  rw [htake]
  rfl

theorem cbor_roundTrips : cbor.RoundTrips := by
  intro e he
  cases e with
  | metadata isLeaf l r => exact ⟨_, rfl, cbor_meta isLeaf l r⟩
  | internal key child =>
    cases key with
    | none => exact ⟨_, rfl, cbor_internal_none child⟩
    | some k =>
      obtain ⟨v, rfl⟩ := he k rfl
      exact ⟨_, rfl, cbor_internal_some v child⟩
  | leaf key rid =>
    obtain ⟨v, rfl⟩ := he
    exact ⟨_, rfl, cbor_leaf v rid⟩

/-- The least length of an entry of the kind. -/
def Cbor.least : NodeEntry → ℕ
  | .metadata _ _ _ => 45
  | .internal _ _ => 23
  | .leaf _ _ => 70

theorem cbor_length {e : NodeEntry} {bytes : List UInt8} (he : e.OneColumn)
    (h : cbor.toVec e = some bytes) : least e ≤ bytes.length ∧ bytes.length ≤ 2 * least e := by
  unfold least
  cases e with
  | metadata isLeaf l r =>
    have hl := (encodeOption_length (v := l.map UInt32.toNat))
    have hl' := hl.2.2.2 (pageId_lt l)
    have hr := (encodeOption_length (v := r.map UInt32.toNat))
    have hr' := hr.2.2.2 (pageId_lt r)
    rw [← Option.some.inj h]
    simp only [List.length_append, List.length_cons, show metaStart.length = 15 from rfl,
      show leftText.length = 13 from rfl, show rightText.length = 14 from rfl]
    omega
  | internal key child =>
    have hc := head_length 0 child.toNat
    have hc' := hc.2.2.2.2 child.toNat_lt
    cases key with
    | none =>
      rw [← Option.some.inj h]
      simp only [encodeUint, List.length_append, List.length_cons,
        show internalStart.length = 15 from rfl, show childText.length = 6 from rfl]
      omega
    | some k =>
      obtain ⟨v, rfl⟩ := he k rfl
      have hv := encodeInt64_length v
      rw [← Option.some.inj h]
      simp only [encodeUint, List.length_append, show internalStart.length = 15 from rfl,
        show bigIntStart.length = 9 from rfl, show childText.length = 6 from rfl]
      omega
  | leaf key rid =>
    obtain ⟨v, rfl⟩ := he
    have hv := encodeInt64_length v
    have hrid := encodeRid_length rid
    rw [← Option.some.inj h]
    simp only [List.length_append, show leafStart.length = 20 from rfl]
    omega

theorem cbor_small : cbor.Small := by
  constructor
  · intro e bytes he h
    have hlen := (cbor_length he h).2
    cases e <;> simp only [least] at hlen <;> omega
  · intro e e' bytes bytes' he he' hk h h'
    have hleast : least e = least e' := by
      cases e <;> cases e' <;> first | rfl | exact absurd hk id
    have hlen := (cbor_length he h).2
    have hlen' := (cbor_length he' h').1
    omega

end CrustyDB
