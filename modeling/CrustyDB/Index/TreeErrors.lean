import CrustyDB.Index.TreeRuns

/-! # Insertions that fail

What an insertion that returns an error leaves behind.  As long as the leaf the key leads to takes the
entry, or the pool refuses a page on the way to it, nothing is written before the insertion fails, so
every lookup returns what it returned before (`NoSplit`).  Otherwise the leaf is drained before a new
page is requested; a pool that does not grant this request leaves a leaf without metadata, on which
lookups fail.  `insert_error_keeps` states both: the first for any pages at all, the second for the
pages that calls on new frames can reach, whatever their keys and whether or not they returned. -/

namespace CrustyDB

open BTree Program TreeIndex Pool List SlotDir

/-! ### States and answers -/

/-- The pages after a new tree and any calls, each on a pool of its own mood, with blank frames. -/
inductive Reachable (C : Codec) : List Page → Prop
  | new {frame : ℕ → Page} {refuse : ℕ → Option MemPoolStatus} {s : Pool Page}
      (hframe : ∀ i, (frame i).Blank)
      (h : Pool.execOn frame (new C) ⟨[], 0, refuse⟩ = (.ok (), s)) : Reachable C s.pages
  | call {frame : ℕ → Page} {op : TreeOp} {s s' : Pool Page} {res : Except CrustyError Unit}
      (hframe : ∀ i, (frame i).Blank) (h : Reachable C s.pages)
      (hcall : Pool.execOn frame (op.call C) s = (res, s')) : Reachable C s'.pages

/-- A pool that grants every request. -/
def granting {P : Type} (pages : List P) : Pool P := ⟨pages, 0, fun _ => none⟩

/-- What a lookup returned. -/
def found : Except CrustyError (List ValueId) → Option (Multiset ValueId)
  | .ok rids => some rids
  | .error _ => none

/-- What `search` returns when the pool grants its requests; it asks for no new page. -/
def answer (C : Codec) (key : IndexKey) (pages : List Page) : Option (Multiset ValueId) :=
  found (Pool.execOn newFrames (search C key) (granting pages)).1

section Landing

variable {P : Type} [HeapPage P]

/-- The leaf that a key leads to from `p`, and the number of nodes on the way to it. -/
def descent (C : Codec) (key : IndexKey) (pages : List P) : ℕ → PageId → Option (PageId × ℕ)
  | 0, _ => none
  | fuel + 1, p =>
    match pages[p.toNat]?.map HeapPage.iter with
    | some (.ok values) =>
      match readIsLeaf C values with
      | .ok true => some (p, 1)
      | .ok false =>
        match readInternalEntries C values >>= (findChild · key) with
        | .ok child => (descent C key pages fuel child).map (fun x => (x.1, x.2 + 1))
        | .error _ => none
      | .error _ => none
    | _ => none

/-- The leaf that a key leads to from the root. -/
def landing (C : Codec) (key : IndexKey) (pages : List P) : Option (PageId × ℕ) :=
  (rootOf pages).bind (descent C key pages (pages.length + 1))

/-- The leaf the key leads to takes the entry, or the pool refuses one of the requests that come
before: one for the header, two for each node on the way. -/
def NoSplit (C : Codec) (key : IndexKey) (rid : ValueId) (s : Pool P) : Prop :=
  ∀ q k page, landing C key s.pages = some (q, k) → s.page? q = some page →
    PageRefuses page (C.bytes (.leaf key rid)) → ∃ i < 1 + 2 * k, s.refuse (s.requests + i) ≠ none

end Landing

/-! ### Nothing is written before the leaf -/

section Keeps

variable {P : Type} [HeapPage P]

/-- A failure that leaves these pages. -/
def Kept (pages : List P) : CrustyError → Pool P → Prop := fun _ t => t.pages = pages

variable {fresh : ℕ → PageId → P} {C : Codec} {key : IndexKey} {rid : ValueId} {s : Pool P}
  {p : PageId} {α β : Type} {pages : List P} {Q : α → Pool P → Prop}

theorem keeps_acquire {f : Except MemPoolStatus Unit → PoolProg α}
    (hno : ∀ e, Ends (Pool.handler fresh) (f (.error e)) s.tick Q (Kept pages))
    (h : s.refuse s.requests = none → Ends (Pool.handler fresh) (f (.ok ())) s.tick Q (Kept pages)) :
    Ends (Pool.handler fresh) (PoolProg.acquire p >>= f) s Q (Kept pages) := by
  have hrun : run (Pool.handler fresh) (PoolProg.acquire p) s = s.acquire p :=
    run_op _ (I := poolInterface) (.acquire p) s
  unfold Pool.acquire at hrun
  cases hr : s.refuse s.requests with
  | some e =>
    rw [hr] at hrun
    exact .step hrun (hno e)
  | none =>
    rw [hr] at hrun
    simp only at hrun
    split_ifs at hrun
    · exact .step hrun (h hr)
    · exact .step hrun (hno _)

section

variable (hs : s.pages = pages)
include hs

theorem keeps_getPageForRead {f : Unit → PoolProg α} (h : s.refuse s.requests = none →
      Ends (Pool.handler fresh) (f ()) s.tick Q (Kept pages)) :
    Ends (Pool.handler fresh) (getPageForRead p >>= f) s Q (Kept pages) :=
  .bind (keeps_acquire (fun _ => .fail hs) (fun hr => .pure (h hr)))

theorem keeps_getPageForWrite {f : Unit → PoolProg α} (h : s.refuse s.requests = none →
      Ends (Pool.handler fresh) (f ()) s.tick Q (Kept pages)) :
    Ends (Pool.handler fresh) (getPageForWrite p >>= f) s Q (Kept pages) :=
  .bind (keeps_acquire (fun _ => .fail hs) (fun hr => .pure (h hr)))

theorem keeps_onPage {g : P → Checked β} {f : β → PoolProg α} {o : PoolProg β}
    (ho : run (Pool.handler fresh) o s = s.onPage p g)
    (h : ∀ page b, s.page? p = some page → g page = .ok b →
      Ends (Pool.handler fresh) (f b) s Q (Kept pages)) :
    Ends (Pool.handler fresh) (o >>= f) s Q (Kept pages) := by
  refine .bind ?_
  unfold Ends
  rw [ho, Pool.onPage]
  cases hp : s.page? p with
  | none => exact hs
  | some page =>
    simp only
    cases hg : g page with
    | error e => exact hs
    | ok b => exact h page b hp hg

theorem keeps_iter {f : List (List UInt8 × SlotId) → PoolProg α}
    (h : ∀ page values, s.page? p = some page → HeapPage.iter page = .ok values →
      Ends (Pool.handler fresh) (f values) s Q (Kept pages)) :
    Ends (Pool.handler fresh) (PoolProg.iter p >>= f) s Q (Kept pages) :=
  keeps_onPage hs (run_op _ (I := poolInterface) (.iter p) s) h

theorem keeps_ofExcept {x : Except CrustyError β} {f : β → PoolProg α}
    (h : ∀ b, x = .ok b → Ends (Pool.handler fresh) (f b) s Q (Kept pages)) :
    Ends (Pool.handler fresh) (Prog.ofExcept x >>= f) s Q (Kept pages) := by
  cases x with
  | error e => exact hs
  | ok b => exact h b rfl

theorem keeps_getRootPageId {f : PageId → PoolProg α} (h : ∀ root, rootOf pages = some root →
      s.refuse s.requests = none → Ends (Pool.handler fresh) (f root) s.tick Q (Kept pages)) :
    Ends (Pool.handler fresh) (getRootPageId >>= f) s Q (Kept pages) := by
  refine .bind (keeps_getPageForRead hs fun hr => ?_)
  refine keeps_onPage (s := s.tick) hs (run_op _ (I := poolInterface) (.get 0 0) s.tick) ?_
  intro page b hp hb
  cases b with
  | none => exact .fail hs
  | some bytes =>
    simp only
    split_ifs with hlen
    · refine h _ ?_ hr
      have hp0 : pages[0]? = some page := hs ▸ hp
      unfold rootOf
      rw [hp0]
      simp only [Option.bind_some, hb, hlen, if_true]
    · exact .fail hs

/-- The leaf takes the entry, or fails to do so without being changed. -/
theorem keeps_insertIntoLeaf (h : ∀ page, s.page? p = some page →
      PageRefuses page (C.bytes (.leaf key rid)) → s.refuse s.requests ≠ none) :
    Ends (Pool.handler fresh) (insertIntoLeaf C p key rid) s (fun r _ => r = none) (Kept pages) := by
  refine keeps_getPageForWrite hs fun hr => ?_
  refine .bind (keeps_ofExcept (s := s.tick) hs fun bytes henc => ?_)
  have hrun : run (Pool.handler fresh) (PoolProg.addValue p bytes) s.tick =
      s.tick.changePage p (fun page => HeapPage.addValue page bytes) :=
    run_op _ (I := poolInterface) (.add p bytes) s.tick
  unfold Ends
  rw [hrun, Pool.changePage]
  cases hp : s.tick.page? p with
  | none => exact hs
  | some page =>
    simp only
    rcases hadd : HeapPage.addValue page bytes with e | ⟨slot, page'⟩
    · exact hs
    · cases slot with
      | some slot => exact rfl
      | none =>
        have hb : C.bytes (.leaf key rid) = bytes := by
          unfold encode at henc
          split at henc
          · rename_i heq
            rw [Codec.bytes_eq heq]
            exact Except.ok.inj henc
          · cases henc
        exact absurd hr (h page hp ⟨page', hb ▸ hadd⟩)

end

theorem descent_leaf {n : ℕ} {page : P} {values : List (List UInt8 × SlotId)}
    (hp : pages[p.toNat]? = some page) (hv : HeapPage.iter page = .ok values)
    (hleaf : readIsLeaf C values = .ok true) : descent C key pages (n + 1) p = some (p, 1) := by
  rw [descent, hp, Option.map_some, hv]
  simp only [hleaf]

theorem descent_inner {n : ℕ} {page : P} {values : List (List UInt8 × SlotId)}
    {es : List (Option IndexKey × PageId)} {c : PageId} (hp : pages[p.toNat]? = some page)
    (hv : HeapPage.iter page = .ok values) (hleaf : readIsLeaf C values = .ok false)
    (hes : readInternalEntries C values = .ok es) (hc : findChild es key = .ok c) :
    descent C key pages (n + 1) p =
      (descent C key pages n c).map (fun x => (x.1, x.2 + 1)) := by
  have hbind : (readInternalEntries C values >>= (findChild · key)) = .ok c := bind_eq_ok.mpr ⟨es, hes, hc⟩
  rw [descent, hp, Option.map_some, hv]
  simp only [hleaf, hbind]

/-- An insertion below `p` that does not come to split the leaf changes no page when it fails. -/
theorem keeps_insertRecursive {n : ℕ} (hs : s.pages = pages)
    (h : ∀ q k page, descent C key pages n p = some (q, k) → pages[q.toNat]? = some page →
      PageRefuses page (C.bytes (.leaf key rid)) → ∃ i < 2 * k, s.refuse (s.requests + i) ≠ none) :
    Ends (Pool.handler fresh) (insertRecursive C key rid n p) s (fun r _ => r = none) (Kept pages) := by
  induction n generalizing s p with
  | zero => exact .fail hs
  | succ n ih =>
    refine keeps_getPageForRead hs fun hr => ?_
    refine keeps_iter (s := s.tick) hs fun page values hp hv => ?_
    replace hp : pages[p.toNat]? = some page := hs ▸ hp
    refine keeps_ofExcept (s := s.tick) hs fun isLeaf hleaf => ?_
    cases isLeaf with
    | true =>
      refine keeps_insertIntoLeaf (s := s.tick) hs fun page' hp' hrefuses => ?_
      obtain rfl : page = page' := Option.some.inj (hp.symm.trans (hs ▸ hp'))
      obtain ⟨i, hi, hno⟩ := h p 1 page (descent_leaf hp hv hleaf) hp hrefuses
      obtain rfl | rfl : i = 0 ∨ i = 1 := by omega
      · exact absurd hr hno
      · exact hno
    | false =>
      refine keeps_getPageForRead (s := s.tick) hs fun hr' => ?_
      refine keeps_iter (s := s.tick.tick) hs fun page' values' hp' hv' => ?_
      obtain rfl : page = page' := Option.some.inj (hp.symm.trans (hs ▸ hp'))
      obtain rfl : values = values' := Except.ok.inj (hv.symm.trans hv')
      refine keeps_ofExcept (s := s.tick.tick) hs fun es hes => ?_
      refine keeps_ofExcept (s := s.tick.tick) hs fun c hc => ?_
      refine .bind ((ih (s := s.tick.tick) hs ?_).mono (fun r t hnone => ?_) (fun _ _ h => h))
      · intro q k page' hdes hq hrefuses
        obtain ⟨i, hi, hno⟩ := h q (k + 1) page'
          (by rw [descent_inner hp hv hleaf hes hc, hdes]; rfl) hq hrefuses
        -- the requests for `p` have been granted
        match i, hi, hno with
        | 0, _, hno => exact absurd hr hno
        | 1, _, hno => exact absurd hr' hno
        | i + 2, hi, hno =>
          refine ⟨i, by omega, ?_⟩
          rw [show s.tick.tick.requests + i = s.requests + (i + 2) by simp only [Pool.tick]; omega]
          exact hno
      · rw [hnone]
        exact rfl

/-- An insertion that does not come to split the leaf changes no page when it fails. -/
theorem keeps_insert (h : NoSplit C key rid s) :
    Ends (Pool.handler fresh) (TreeIndex.insert C key rid) s (fun _ _ => True) (Kept s.pages) := by
  have hrounds : run (Pool.handler fresh) rounds s = (.ok (s.pages.length + 1), s) := rfl
  refine .step hrounds ?_
  refine keeps_getRootPageId rfl fun root hroot hr => ?_
  refine .bind ((keeps_insertRecursive (s := s.tick) rfl ?_).mono (fun r t hnone => ?_) (fun _ _ h => h))
  · intro q k page hdes hq hrefuses
    obtain ⟨i, hi, hno⟩ := h q k page (by rw [landing, hroot]; exact hdes) hq hrefuses
    match i, hi, hno with
    | 0, _, hno => exact absurd hr hno
    | i + 1, hi, hno =>
      refine ⟨i, by omega, ?_⟩
      rw [show s.tick.requests + i = s.requests + (i + 1) by simp only [Pool.tick]; omega]
      exact hno
  · rw [hnone]
    exact trivial

end Keeps

/-! ### Byte pages and their directories -/

/-- Byte pages and the directories they spell. -/
def PagesRel (pages : List Page) (dirs : List SlotDir) : Prop :=
  ∀ n refuse, PoolRel ⟨pages, n, refuse⟩ ⟨dirs, n, refuse⟩

theorem PoolRel.pagesRel {s : Pool Page} {t : Pool SlotDir} (h : PoolRel s t) :
    PagesRel s.pages t.pages :=
  fun _ _ => ⟨h.length, h.page, rfl, rfl⟩

section PagesRel

variable {C : Codec} {pages : List Page} {dirs : List SlotDir}

theorem Reachable.pagesRel (h : Reachable C pages) : ∃ dirs, PagesRel pages dirs := by
  induction h with
  | @new frame refuse s hframe h =>
    obtain ⟨-, hrel⟩ := exec_agree hframe (TreeIndex.new C) (poolRel_nil refuse)
    rw [h] at hrel
    exact ⟨_, hrel.pagesRel⟩
  | @call frame op s s' res hframe h hcall ih =>
    obtain ⟨dirs, hd⟩ := ih
    obtain ⟨-, hrel⟩ := exec_agree hframe (op.call C) (hd s.requests s.refuse)
    rw [hcall] at hrel
    exact ⟨_, hrel.pagesRel⟩

theorem Run.reachable {frame : ℕ → Page} (hframe : ∀ i, (frame i).Blank)
    {refuse : ℕ → Option MemPoolStatus} {ops : List TreeOp} {s : Pool Page}
    (h : Run C frame refuse ops s) : Reachable C s.pages := by
  induction ops using List.reverseRecOn generalizing s with
  | nil => exact .new hframe h
  | append_singleton ops op ih =>
    unfold Run history at h
    rw [foldl_concat] at h
    obtain ⟨u, s₁, hinit, hcall⟩ := of_run_bind h
    exact .call hframe (ih hinit) hcall

/-- What `search` returns on directories. -/
def dirAnswer (C : Codec) (key : IndexKey) (dirs : List SlotDir) : Option (Multiset ValueId) :=
  found (Pool.exec (search C key) (granting dirs)).1

section

variable (h : PagesRel pages dirs)
include h

theorem PagesRel.answer_eq (C : Codec) (key : IndexKey) : answer C key pages = dirAnswer C key dirs := by
  unfold answer dirAnswer granting
  rw [(exec_agree newFrames_blank (search C key) (h 0 (fun _ => none))).1]

theorem PagesRel.rootOf_eq : rootOf pages = rootOf dirs := by
  unfold rootOf
  rcases (h 0 (fun _ => none)).page?_cases 0 with ⟨hp, hd⟩ | ⟨p, d, hp, hd, hpd⟩
  · rw [show pages[0]? = none from hp, show dirs[0]? = none from hd]
    rfl
  · rw [show pages[0]? = some p from hp, show dirs[0]? = some d from hd]
    have hget : HeapPage.getValue p 0 = HeapPage.getValue d 0 := Page.getValue_rep hpd.1 0
    simp only [Option.bind_some, hget]

theorem PagesRel.descent_eq (C : Codec) (key : IndexKey) (n : ℕ) (p : PageId) :
    descent C key pages n p = descent C key dirs n p := by
  induction n generalizing p with
  | zero => rfl
  | succ n ih =>
    have hiter : pages[p.toNat]?.map HeapPage.iter = dirs[p.toNat]?.map HeapPage.iter := by
      rcases (h 0 (fun _ => none)).page?_cases p with ⟨hp, hd⟩ | ⟨q, d, hp, hd, hqd⟩
      · rw [show pages[p.toNat]? = none from hp, show dirs[p.toNat]? = none from hd]
        rfl
      · rw [show pages[p.toNat]? = some q from hp, show dirs[p.toNat]? = some d from hd]
        exact congrArg some (Page.iter_rep hqd.1 hqd.2)
    rw [descent, descent, hiter]
    simp only [ih]

theorem PagesRel.landing_eq (C : Codec) (key : IndexKey) : landing C key pages = landing C key dirs := by
  unfold landing
  rw [h.rootOf_eq, show pages.length = dirs.length from (h 0 (fun _ => none)).length]
  exact congrArg _ (funext (h.descent_eq C key _))

theorem PagesRel.wf : ∀ d ∈ dirs, d.WF := by
  intro d hd
  obtain ⟨i, hi⟩ := mem_iff_getElem?.mp hd
  have hrel := h 0 (fun _ => none)
  have hlt := (List.getElem?_eq_some_iff.mp hi).1
  rw [← show pages.length = dirs.length from hrel.length] at hlt
  exact (hrel.page i _ d (getElem?_eq_getElem hlt) hi).2

end

/-- A directory refuses the values that its page refuses. -/
theorem pageRefuses_iff {p : Page} {d : SlotDir} (h : PageRel p d) (bytes : List UInt8) :
    PageRefuses p bytes ↔ PageRefuses d bytes := by
  have hagree := add_pageRel h bytes
  unfold PageRefuses
  rw [show HeapPage.addValue p bytes = p.addValue bytes from rfl,
    show HeapPage.addValue d bytes = d.add bytes from rfl]
  generalize p.addValue bytes = x at hagree
  generalize d.add bytes = y at hagree
  cases hagree with
  | error e => simp
  | @ok x y hxy =>
    obtain ⟨res, p'⟩ := x
    obtain ⟨res', d'⟩ := y
    obtain rfl : res = res' := hxy.1
    simp

theorem PagesRel.noSplit_iff (h : PagesRel pages dirs) (C : Codec) (key : IndexKey) (rid : ValueId)
    (n : ℕ) (refuse : ℕ → Option MemPoolStatus) :
    NoSplit C key rid ⟨pages, n, refuse⟩ ↔ NoSplit C key rid ⟨dirs, n, refuse⟩ := by
  unfold NoSplit
  rw [h.landing_eq]
  refine forall_congr' fun q => forall_congr' fun k => ?_
  rcases (h n refuse).page?_cases q with ⟨hp, hd⟩ | ⟨p, d, hp, hd, hpd⟩
  · simp only [hp, hd, reduceCtorEq, false_implies, implies_true]
  · simp only [hp, hd, Option.some.injEq]
    constructor
    · rintro h' page hland rfl hrefuses
      exact h' p hland rfl ((pageRefuses_iff hpd _).mpr hrefuses)
    · rintro h' page hland rfl hrefuses
      exact h' d hland rfl ((pageRefuses_iff hpd _).mp hrefuses)

end PagesRel

/-! ### What a lookup that returns has read -/

section Returns

variable {C : Codec} {key : IndexKey} {s s' : Pool SlotDir}

theorem rootOf_of_ok {root : PageId} (h : Pool.exec getRootPageId s = (.ok root, s')) :
    rootOf s.pages = some root ∧ s'.pages = s.pages := by
  unfold getRootPageId at h
  obtain ⟨s₁, hpages, h⟩ := ok_getPageForRead h
  obtain ⟨v, s₂, hget, h⟩ := of_exec_bind h
  rw [exec_getValue] at hget
  unfold Pool.onPage Pool.page? at hget
  cases hd : s₁.pages[(0 : PageId).toNat]? with
  | none =>
    rw [hd] at hget
    cases hget
  | some d =>
    rw [hd] at hget
    have hv : (Except.ok (d.get 0), s₁) = (Except.ok v, s₂) := hget
    cases hv
    cases hb : d.get 0 with
    | none =>
      rw [hb] at h
      cases h
    | some bytes =>
      rw [hb] at h
      simp only at h
      split_ifs at h with hlen
      · cases h
        refine ⟨?_, hpages⟩
        have hget' : HeapPage.getValue d 0 = .ok (some bytes) := congrArg Except.ok hb
        have hd0 : s.pages[0]? = some d := by
          rw [← hpages]
          exact hd
        unfold rootOf
        rw [hd0]
        simp only [Option.bind_some, hget', hlen, if_true]
      · cases h

/-- A descent that returns followed the pages. -/
theorem descends_of_ok {fuel : ℕ} {p q : PageId}
    (h : Pool.exec (findLeaf C key fuel p) s = (.ok q, s')) :
    Descends C key s.pages fuel p q ∧ s'.pages = s.pages := by
  induction fuel generalizing p s with
  | zero => cases h
  | succ fuel ih =>
    obtain ⟨s₁, hpages, h⟩ := ok_getPageForRead h
    obtain ⟨d, hd, h⟩ := ok_iter h
    obtain ⟨isLeaf, hleaf, h⟩ := ok_ofExcept h
    rw [← hpages]
    cases isLeaf with
    | true =>
      cases h
      exact ⟨.leaf hd hleaf, rfl⟩
    | false =>
      rw [if_neg Bool.false_ne_true] at h
      obtain ⟨es, hes, h⟩ := ok_ofExcept h
      obtain ⟨c, hc, h⟩ := ok_ofExcept h
      obtain ⟨hdes, hs'⟩ := ih h
      exact ⟨.inner hd hleaf hes hc hdes, hs'⟩

/-- A lookup that returns has read the leaf the key leads to. -/
theorem search_of_ok {rids : List ValueId} (h : Pool.exec (search C key) s = (.ok rids, s')) :
    ∃ root q d x, rootOf s.pages = some root ∧
      Descends C key s.pages (s.pages.length + 1) root q ∧ s.pages[q.toNat]? = some d ∧
      leafEntries C none none d.iter = .ok x := by
  unfold search at h
  obtain ⟨fuel, s₁, h1, h⟩ := of_exec_bind h
  obtain ⟨rfl, rfl⟩ := (rounds_reads s.pages).of_ok rfl h1
  obtain ⟨root, s₂, h2, h⟩ := of_exec_bind h
  obtain ⟨hroot, hpages⟩ := rootOf_of_ok h2
  obtain ⟨q, s₃, h3, h⟩ := of_exec_bind h
  obtain ⟨hdes, hpages₃⟩ := descends_of_ok h3
  rw [hpages] at hdes hpages₃
  obtain ⟨start, s₄, h4, -⟩ := of_exec_bind h
  obtain ⟨s₅, hpages₅, h4⟩ := ok_getPageForRead h4
  obtain ⟨d, hd, h4⟩ := ok_iter h4
  obtain ⟨y, hy, -⟩ := ok_ofExcept h4
  rw [hpages₅, hpages₃] at hd
  refine ⟨root, q, d, ?_⟩
  obtain ⟨x, hx, -⟩ := map_eq_ok.mp hy
  exact ⟨x, hroot, hdes, hd, hx⟩

end Returns

/-! ### An entry that does not fit -/

section Insert

variable {C : Codec} {key : IndexKey} {rid : ValueId} {pages : List SlotDir} {d : SlotDir}
  {n : ℕ} {p q : PageId}

section

variable (h : Descends C key pages n p q)
include h

theorem Descends.descent_eq : ∃ k, descent C key pages n p = some (q, k) := by
  induction h with
  | leaf hd hleaf => exact ⟨1, descent_leaf hd rfl hleaf⟩
  | inner hd hleaf hes hc _ ih =>
    obtain ⟨k, hk⟩ := ih
    exact ⟨k + 1, by rw [descent_inner hd rfl hleaf hes hc, hk]; rfl⟩

/-- When the leaf has no room, an insertion below `p` makes two requests for each node on the way; if
these are granted and the next one is not, it fails and leaves the leaf without values. -/
theorem Descends.insert_noRoom (hd : pages[q.toNat]? = some d)
    (henc : encode C (.leaf key rid) = .ok (C.bytes (.leaf key rid)))
    (hroom : ¬ d.Room (C.bytes (.leaf key rid)))
    {x : Option PageId × Option PageId × List (IndexKey × ValueId)}
    (hread : leafEntries C none none d.iter = .ok x) :
    ∃ k, descent C key pages n p = some (q, k) ∧
      ∀ s : Pool SlotDir, s.pages = pages → (∀ i < 2 * k, s.refuse (s.requests + i) = none) →
        ∀ e, s.refuse (s.requests + 2 * k) = some e →
          ∃ s', Pool.exec (insertRecursive C key rid n p) s = (.error (.pool "" e), s') ∧
            s'.pages = pages.set q.toNat (d.deleteAll (d.iter.map Prod.snd)) := by
  induction h with
  | @leaf n p d' hd' hleaf =>
    obtain rfl : d' = d := Option.some.inj (hd'.symm.trans hd)
    have hlt := (List.getElem?_eq_some_iff.mp hd).1
    refine ⟨1, descent_leaf hd rfl hleaf, fun s hs hgrant e he => ?_⟩
    have h1 := (Reads.getPageForRead hlt).granted s hs (fun i hi => hgrant i (by omega))
    have h2 := (Reads.getPageForWrite hlt).granted (s.after 1) hs (fun i hi => by
      show s.refuse (s.requests + 1 + i) = none
      rw [Nat.add_assoc]
      exact hgrant (1 + i) (by omega))
    have hadd : Pool.exec (addEntry C p (.leaf key rid)) ((s.after 1).after 1) =
        (.ok none, (s.after 1).after 1) := by
      rw [exec_addEntry (hs ▸ hd) henc (add_noRoom hroom), setPage_self (hs ▸ hd)]
    have hdrain : Pool.exec (drainLeaf C p) ((s.after 1).after 1) =
        (.ok x, ((s.after 1).after 1).setPage p (d'.deleteAll (d'.iter.map Prod.snd))) :=
      exec_drainLeaf (hs ▸ hd) hread
    have hcreate : ∀ {α : Type} (f : PageId → PoolProg α) (u : Pool SlotDir),
        u.requests = s.requests + 2 → u.refuse = s.refuse →
        Pool.exec (createPage >>= f) u = (.error (.pool "" e), u.tick) := by
      intro α f u hreq href
      have hone : Pool.exec PoolProg.create u = (.ok (.error e), u.tick) := by
        rw [exec_create]
        unfold Pool.create
        rw [href, hreq, he]
      refine exec_bind_error ?_
      unfold createPage
      rw [exec_bind_ok hone]
      rfl
    unfold insertRecursive
    rw [exec_bind_ok h1, exec_iter_bind (hs ▸ hd), exec_ofExcept_bind hleaf, if_pos rfl]
    unfold insertIntoLeaf
    rw [exec_bind_ok h2, exec_bind_ok hadd]
    simp only [Option.isSome_none, Bool.false_eq_true, if_false]
    unfold splitLeaf
    rw [exec_bind_ok hdrain]
    obtain ⟨l, r, ls⟩ := x
    simp only
    have hE : (sortLeaf (ls ++ [(key, rid)])).length = ls.length + 1 := by
      rw [(sortLeaf_perm _).length_eq, length_append, length_singleton]
    generalize sortLeaf (ls ++ [(key, rid)]) = E at hE
    cases hdrop : E.drop (E.length / 2) with
    | nil =>
      rw [drop_eq_nil_iff] at hdrop
      omega
    | cons y ys =>
      refine ⟨_, hcreate _ _ rfl rfl, ?_⟩
      show ((s.after 1).after 1).pages.set p.toNat _ = _
      rw [show ((s.after 1).after 1).pages = pages from hs]
  | @inner n p c q d' es hd' hleaf hes hc h ih =>
    have hlt := (List.getElem?_eq_some_iff.mp hd').1
    obtain ⟨k, hk, ht⟩ := ih hd
    refine ⟨k + 1, by rw [descent_inner hd' rfl hleaf hes hc, hk]; rfl, fun s hs hgrant e he => ?_⟩
    have h1 := (Reads.getPageForRead hlt).granted s hs (fun i hi => hgrant i (by omega))
    have h2 := (Reads.getPageForRead hlt).granted (s.after 1) hs (fun i hi => by
      show s.refuse (s.requests + 1 + i) = none
      rw [Nat.add_assoc]
      exact hgrant (1 + i) (by omega))
    obtain ⟨s', h3, hs'⟩ := ht ((s.after 1).after 1) hs
      (fun i hi => by
        show s.refuse (s.requests + 2 + i) = none
        rw [Nat.add_assoc]
        exact hgrant (2 + i) (by omega))
      e (by
        show s.refuse (s.requests + 2 + 2 * k) = some e
        rw [Nat.add_assoc, Nat.add_comm 2]
        exact he)
    refine ⟨s', ?_, hs'⟩
    unfold insertRecursive
    rw [exec_bind_ok h1, exec_iter_bind (hs ▸ hd'), exec_ofExcept_bind hleaf,
      if_neg Bool.false_ne_true, exec_bind_ok h2, exec_iter_bind (hs ▸ hd'),
      exec_ofExcept_bind hes, exec_ofExcept_bind hc]
    exact exec_bind_error h3

theorem Descends.of_inner {c : PageId} {es : List (Option IndexKey × PageId)} (hd : pages[p.toNat]? = some d)
    (hleaf : readIsLeaf C d.iter = .ok false) (hes : readInternalEntries C d.iter = .ok es)
    (hc : findChild es key = .ok c) : ∃ m, Descends C key pages m c q := by
  cases h with
  | leaf hd' hleaf' =>
    rw [hd] at hd'
    rw [← Option.some.inj hd', hleaf] at hleaf'
    cases hleaf'
  | @inner m _ _ _ _ _ hd' hleaf' hes' hc' h =>
    rw [hd] at hd'
    rw [← Option.some.inj hd', hes] at hes'
    rw [← Except.ok.inj hes', hc] at hc'
    exact ⟨m, Except.ok.inj hc' ▸ h⟩

theorem Descends.readable :
    ∃ d isLeaf, pages[p.toNat]? = some d ∧ readIsLeaf C d.iter = .ok isLeaf := by
  cases h with
  | leaf hd hleaf => exact ⟨_, _, hd, hleaf⟩
  | inner hd hleaf => exact ⟨_, _, hd, hleaf⟩

/-- A key leads to no leaf through a page that has lost its values. -/
theorem Descends.not_drained {d' : SlotDir} {m : ℕ} {q' : PageId}
    (hq : q.toNat < pages.length) (hempty : d'.iter = []) :
    ¬ Descends C key (pages.set q.toNat d') m p q' := by
  have hself : (pages.set q.toNat d')[q.toNat]? = some d' := getElem?_set_self hq
  have hlost : ∀ m, ¬ Descends C key (pages.set q.toNat d') m q q' := by
    intro m h'
    obtain ⟨d₁, isLeaf, hd₁, hleaf⟩ := h'.readable
    obtain rfl := Option.some.inj (hself.symm.trans hd₁)
    rw [hempty] at hleaf
    cases hleaf
  induction h generalizing m with
  | leaf => exact hlost m
  | @inner n p c q d es hd hleaf hes hc h ih =>
    intro h'
    by_cases hpq : p = q
    · exact hlost m (hpq ▸ h')
    · have hd₀ : (pages.set q.toNat d')[p.toNat]? = some d := by
        rw [getElem?_set_page _ _ _ _ hq, if_neg hpq, hd]
      obtain ⟨m', h'⟩ := h'.of_inner hd₀ hleaf hes hc
      exact ih hq hself hlost h'

end

variable {k : ℕ}

theorem live_of_replicate (h : d.values = List.replicate k []) : d.live = [] := by
  unfold SlotDir.live
  rw [h, filter_eq_nil_iff]
  intro v hv
  rw [eq_of_mem_replicate hv]
  decide

theorem iter_of_replicate (h : d.values = List.replicate k []) : d.iter = [] := by
  have hlive := live_of_replicate h
  rw [← iter_fst, map_eq_nil_iff] at hlive
  exact hlive

theorem get_of_replicate (h : d.values = List.replicate k []) (slot : SlotId) :
    d.get slot = none := by
  cases hget : d.get slot with
  | none => rfl
  | some v =>
    obtain ⟨hv, hne⟩ := get_eq_some.mp hget
    rw [h] at hv
    exact absurd (eq_of_mem_replicate (mem_of_getElem? hv)) hne

/-- A key that led to a page whose values were deleted is no longer found. -/
theorem answer_drained {root : PageId} (hroot : rootOf pages = some root)
    (h : Descends C key pages n root q) {d' : SlotDir} (hq : q.toNat < pages.length)
    (hempty : d'.values = List.replicate k []) : dirAnswer C key (pages.set q.toNat d') = none := by
  unfold dirAnswer
  cases hrun : Pool.exec (search C key) (granting (pages.set q.toNat d')) with
  | mk res s' =>
    cases res with
    | error e => rfl
    | ok rids =>
      exfalso
      obtain ⟨root', q', -, -, hroot', hdes, -⟩ := search_of_ok hrun
      have hroot'' : rootOf (pages.set q.toNat d') = some root' := hroot'
      by_cases hq0 : q.toNat = 0
      · -- the header has lost the id of the root
        have hget : HeapPage.getValue d' 0 = .ok none :=
          congrArg Except.ok (get_of_replicate hempty 0)
        rw [hq0] at hq hroot''
        unfold rootOf at hroot''
        rw [getElem?_set_self hq] at hroot''
        simp only [Option.bind_some, hget, reduceCtorEq] at hroot''
      · have hsame : rootOf (pages.set q.toNat d') = rootOf pages := by
          unfold rootOf
          rw [getElem?_set_ne hq0]
        rw [hsame, hroot] at hroot''
        obtain rfl := Option.some.inj hroot''
        exact h.not_drained hq (iter_of_replicate hempty) hdes

theorem room_iff (bytes : List UInt8) :
    d.Room bytes ↔ ¬ PageRefuses d bytes := by
  constructor
  · rintro hroom ⟨d', hadd⟩
    have hadd' : d.add bytes = .ok (none, d') := hadd
    exact (add_none hadd').1 hroom
  · intro h
    by_contra hroom
    exact h ⟨d, add_noRoom hroom⟩

end Insert

/-! ### When a failed insertion changes no answer -/

section Answers

variable {C : Codec} {key : IndexKey} {rid : ValueId} {dirs : List SlotDir}

/-- A key that is looked up with success leads to a leaf that can be read. -/
theorem leaf_of_answer (h : dirAnswer C key dirs ≠ none) :
    ∃ root q d x, rootOf dirs = some root ∧ Descends C key dirs (dirs.length + 1) root q ∧
      dirs[q.toNat]? = some d ∧ leafEntries C none none d.iter = .ok x := by
  unfold dirAnswer at h
  cases hrun : Pool.exec (search C key) (granting dirs) with
  | mk res s' =>
    cases res with
    | error e =>
      rw [hrun] at h
      exact absurd rfl h
    | ok rids => exact search_of_ok hrun

theorem encode_bytes {e : NodeEntry} (h : C.toVec e ≠ none) : encode C e = .ok (C.bytes e) := by
  obtain ⟨bytes, hb⟩ := Option.ne_none_iff_exists'.mp h
  unfold encode
  rw [Codec.bytes_eq hb, hb]

/-- The insertion comes to split the leaf and does not get a new page: it fails, and the key can no
longer be looked up. -/
theorem insert_error_loses {s : Pool SlotDir} (hs : s.pages = dirs) (hw : ∀ d ∈ dirs, d.WF)
    (henc : C.toVec (.leaf key rid) ≠ none) (hkey : dirAnswer C key dirs ≠ none)
    (hsplit : ¬ NoSplit C key rid s) {q : PageId} {k : ℕ} (hland : landing C key dirs = some (q, k))
    {e : MemPoolStatus} (he : s.refuse (s.requests + (1 + 2 * k)) = some e) :
    ∃ s', Pool.exec (TreeIndex.insert C key rid) s = (.error (.pool "" e), s') ∧
      dirAnswer C key s'.pages = none := by
  obtain ⟨root, q₁, d, x, hroot, hdes, hd, hread⟩ := leaf_of_answer hkey
  unfold NoSplit at hsplit
  push Not at hsplit
  obtain ⟨q₂, k₂, page, hland₂, hpage, hrefuses, hgrant⟩ := hsplit
  rw [hs, hland, Option.some.injEq, Prod.mk.injEq] at hland₂
  obtain ⟨rfl, rfl⟩ := hland₂
  -- the leaf that refuses the entry is the one the lookup has read
  obtain ⟨k₁, hdescent⟩ := hdes.descent_eq
  have hq : (q₁, k₁) = (q, k) := by
    rw [landing, hroot, Option.bind_some, hdescent] at hland
    exact Option.some.inj hland
  obtain ⟨rfl, rfl⟩ := Prod.mk.inj hq
  obtain rfl : page = d := Option.some.inj ((show dirs[q₁.toNat]? = some page from hs ▸ hpage).symm.trans hd)
  obtain ⟨k, hk, hfails⟩ := hdes.insert_noRoom hd (encode_bytes henc)
    (fun hroom => (room_iff _).mp hroom hrefuses) hread
  obtain rfl : k₁ = k := (Prod.mk.inj (Option.some.inj (hdescent.symm.trans hk))).2
  have hrounds : Pool.exec rounds s = (.ok (dirs.length + 1), s) := by
    rw [← hs]
    rfl
  have h1 := (getRootPageId_reads hroot).granted s hs (fun i hi => hgrant i (by omega))
  obtain ⟨s', h2, hs'⟩ := hfails (s.after 1) hs (fun i hi => by
      show s.refuse (s.requests + 1 + i) = none
      rw [Nat.add_assoc]
      exact hgrant (1 + i) (by omega)) e (by
      show s.refuse (s.requests + 1 + 2 * k₁) = some e
      rw [Nat.add_assoc]
      exact he)
  refine ⟨s', ?_, ?_⟩
  · unfold TreeIndex.insert
    rw [exec_bind_ok hrounds, exec_bind_ok h1]
    exact exec_bind_error h2
  · rw [hs']
    exact answer_drained hroot hdes (List.getElem?_eq_some_iff.mp hd).1
      (deleteAll_iter (hw _ (mem_of_getElem? hd)))

end Answers


/-- As many entries as one leaf takes. -/
def fullOps : List TreeOp := (List.range 54).map (fun i => .insert [.bigInt 5] (lossRid i))

/-- One entry more. -/
def splitOps : List TreeOp := fullOps ++ [.insert [.bigInt 9] (lossRid 54)]

/-- A pool that refuses one request. -/
def refuseAt (n : ℕ) : ℕ → Option MemPoolStatus := fun i =>
  if i = n then some .cannotEvictPage else none

/-- The pages after these calls. -/
def pagesAfter (ops : List TreeOp) : List SlotDir :=
  (Pool.exec (history cbor ops) (⟨[], 0, fun _ => none⟩ : Pool SlotDir)).2.pages

theorem fullOps_eval : (Pool.exec (history cbor fullOps) (⟨[], 0, fun _ => none⟩ : Pool SlotDir)).1 =
      .ok () ∧
    (Pool.exec (search cbor [.bigInt 5]) (granting (pagesAfter fullOps))).1.isOk = true ∧
    (Pool.exec (search cbor [.bigInt 9]) (granting (pagesAfter fullOps))).1.isOk = true ∧
    landing cbor [.bigInt 9] (pagesAfter fullOps) = some (1, 1) ∧
    ((pagesAfter fullOps)[(1 : PageId).toNat]?.map fun d =>
      (d.add (cbor.bytes (.leaf [.bigInt 9] (lossRid 54)))).map Prod.fst) = some (.ok none) := by
  decide +kernel

theorem splitOps_eval : (Pool.exec (history cbor splitOps) (⟨[], 0, fun _ => none⟩ : Pool SlotDir)).1 =
      .ok () ∧
    landing cbor [.bigInt 9] (pagesAfter splitOps) = some (2, 2) ∧
    (Pool.exec (TreeIndex.insert cbor [.bigInt 9] (lossRid 55))
      (⟨pagesAfter splitOps, 0, refuseAt 4⟩ : Pool SlotDir)).1 =
        .error (.pool "index page write error" .cannotEvictPage) := by
  decide +kernel

theorem isSome_found {res : Except CrustyError (List ValueId)} : (found res).isSome = res.isOk := by
  cases res <;> rfl

theorem splits {C : Codec} {key : IndexKey} {rid : ValueId} {dirs : List SlotDir} {q : PageId} {k n : ℕ}
    (hland : landing C key dirs = some (q, k))
    (hadd : (dirs[q.toNat]?.map fun d => (d.add (C.bytes (.leaf key rid))).map Prod.fst) = some (.ok none))
    (hn : 1 + 2 * k ≤ n) : ¬ NoSplit C key rid (⟨dirs, 0, refuseAt n⟩ : Pool SlotDir) := by
  obtain ⟨d, hd, hadd⟩ := Option.map_eq_some_iff.mp hadd
  obtain ⟨⟨r, d'⟩, hadd, rfl⟩ := map_eq_ok.mp hadd
  intro h
  obtain ⟨i, hi, hno⟩ := h q k d hland hd ⟨d', hadd⟩
  exact hno (if_neg (show 0 + i ≠ n by omega))

theorem fullOps_insert : (Pool.exec (TreeIndex.insert cbor [.bigInt 9] (lossRid 54))
      (⟨pagesAfter fullOps, 0, refuseAt 3⟩ : Pool SlotDir)).1 = .error (.pool "" .cannotEvictPage) ∧
    (Pool.exec (search cbor [.bigInt 5]) (granting
      (Pool.exec (TreeIndex.insert cbor [.bigInt 9] (lossRid 54))
        (⟨pagesAfter fullOps, 0, refuseAt 3⟩ : Pool SlotDir)).2.pages)).1.isOk = false := by
  decide +kernel

end CrustyDB
