import Tbm.Core.Links

/-! The list iterators over a ring. Every walk carries fuel and returns `none` when it runs
out or meets a cell that is no entry, so a walk over a damaged list is not given a meaning. -/
namespace Tbm.Links

variable {κ α σ : Type} [DecidableEq κ]

/-- `LIST_FOR_EACH_ENTRY` with an early return at the first entry satisfying `p`.
`entry` is `container_of`: it fails on a cell that is not embedded in a live entry. -/
def search (m : Links κ) (entry : κ → Option α) (p : α → Bool) (h : κ) :
    ℕ → κ → Option (Option α)
  | 0, _ => none
  | fuel + 1, c =>
    if c = h then some none
    else do
      let a ← entry c
      if p a then some (some a) else search m entry p h fuel (m.next c)

/-- `LIST_FOR_EACH_ENTRY` to the end, collecting the entries. -/
def entries (m : Links κ) (entry : κ → Option α) (h : κ) : ℕ → κ → Option (List α)
  | 0, _ => none
  | fuel + 1, c =>
    if c = h then some []
    else do
      let a ← entry c
      let as ← entries m entry h fuel (m.next c)
      some (a :: as)

/-- `LIST_FOR_EACH_ENTRY_SAFE`: `storage` is read before the body runs and advanced after it.
The body says whether it breaks; the entries it ran on are returned with the final state. -/
def forEachSafe (next : σ → κ → κ) (entry : σ → κ → Option α)
    (body : α → σ → Option (Bool × σ)) (h : κ) : ℕ → κ → κ → σ → Option (List α × σ)
  | 0, _, _, _ => none
  | fuel + 1, pos, storage, s =>
    if pos = h then some ([], s)
    else do
      let a ← entry s pos
      let (stop, s) ← body a s
      if stop then some ([a], s)
      else do
        let (as, s) ← forEachSafe next entry body h fuel storage (next s storage) s
        some (a :: as, s)

theorem search_entry {m : Links κ} {entry : κ → Option α} {p : α → Bool} {h c : κ} {fuel : ℕ}
    {a : α} (hs : search m entry p h fuel c = some (some a)) : ∃ c, entry c = some a := by
  induction fuel generalizing c with
  | zero => simp [search] at hs
  | succ fuel ih =>
    unfold search at hs
    split_ifs at hs with hc
    · simp at hs
    · obtain ⟨b, hb, hs⟩ := Option.bind_eq_some_iff.mp hs
      split_ifs at hs with hp
      · obtain rfl : b = a := by simpa using hs
        exact ⟨c, hb⟩
      · exact ih hs

section Spec

variable {m : Links κ} {entry : κ → Option α} {f : α → κ} {h : κ}

private theorem chain_search {p : α → Bool} {a : κ} {as : List α} (hc : m.Chain a (as.map f) h)
    (hh : h ∉ as.map f) (he : ∀ x ∈ as, entry (f x) = some x) {fuel : ℕ}
    (hf : as.length < fuel) : m.search entry p h fuel (m.next a) = some (as.find? p) := by
  induction as generalizing a fuel with
  | nil =>
    obtain ⟨fuel, rfl⟩ : ∃ k, fuel = k + 1 := ⟨fuel - 1, by simp at hf; omega⟩
    simp [search, hc.1]
  | cons x as ih =>
    obtain ⟨fuel, rfl⟩ : ∃ k, fuel = k + 1 := ⟨fuel - 1, by simp at hf; omega⟩
    simp only [List.map_cons, List.mem_cons, not_or] at hh
    obtain ⟨hn, -, hc⟩ := hc
    have hrec := ih hc hh.2 (fun y hy => he y (List.mem_cons_of_mem _ hy))
      (by simp at hf; omega)
    simp only [search, hn, Ne.symm hh.1, ↓reduceIte, he x List.mem_cons_self, Option.bind_eq_bind,
      Option.bind_some, hrec, List.find?_cons]
    split <;> simp_all

theorem Ring.search_eq {p : α → Bool} {as : List α} (r : m.Ring h (as.map f))
    (he : ∀ x ∈ as, entry (f x) = some x) {fuel : ℕ} (hf : as.length < fuel) :
    m.search entry p h fuel (m.next h) = some (as.find? p) :=
  chain_search r.chain r.head_notMem he hf

private theorem chain_entries {a : κ} {as : List α} (hc : m.Chain a (as.map f) h)
    (hh : h ∉ as.map f) (he : ∀ x ∈ as, entry (f x) = some x) {fuel : ℕ}
    (hf : as.length < fuel) : m.entries entry h fuel (m.next a) = some as := by
  induction as generalizing a fuel with
  | nil =>
    obtain ⟨fuel, rfl⟩ : ∃ k, fuel = k + 1 := ⟨fuel - 1, by simp at hf; omega⟩
    simp [entries, hc.1]
  | cons x as ih =>
    obtain ⟨fuel, rfl⟩ : ∃ k, fuel = k + 1 := ⟨fuel - 1, by simp at hf; omega⟩
    simp only [List.map_cons, List.mem_cons, not_or] at hh
    obtain ⟨hn, -, hc⟩ := hc
    have hrec := ih hc hh.2 (fun y hy => he y (List.mem_cons_of_mem _ hy))
      (by simp at hf; omega)
    simp [entries, hn, Ne.symm hh.1, he x List.mem_cons_self, hrec]

theorem Ring.entries_eq {as : List α} (r : m.Ring h (as.map f))
    (he : ∀ x ∈ as, entry (f x) = some x) {fuel : ℕ} (hf : as.length < fuel) :
    m.entries entry h fuel (m.next h) = some as :=
  chain_entries r.chain r.head_notMem he hf

omit [DecidableEq κ] in
/-- Where `LIST_FOR_EACH_ENTRY_SAFE` starts on a ring. -/
theorem Ring.forEachSafe_start {as : List α} (r : m.Ring h (as.map f)) :
    m.next h = (as.map f).headD h ∧
      ∀ a bs, as = a :: bs → m.next (m.next h) = (bs.map f).headD h := by
  refine ⟨r.next_head, ?_⟩
  rintro a bs rfl
  rw [r.next_head]
  exact r.next_first

end Spec

/-- The loop rule. `I as s` is the invariant with the entries `as` still ahead; it has to show
where the next cell is, because the iterator reads `storage->next` only after the body. -/
theorem forEachSafe_spec (next : σ → κ → κ) (entry : σ → κ → Option α)
    (body : α → σ → Option (Bool × σ)) (f : α → κ) (h : κ) (I : List α → σ → Prop)
    (Q : List α → σ → Prop)
    (head : ∀ a as s, I (a :: as) s → f a ≠ h ∧ entry s (f a) = some a ∧
      next s (f a) = (as.map f).headD h)
    (step : ∀ a as s, I (a :: as) s → ∃ stop s', body a s = some (stop, s') ∧
      if stop then Q [a] s' else I as s' ∧ ∀ vs t, Q vs t → Q (a :: vs) t)
    (done : ∀ s, I [] s → Q [] s)
    {as : List α} {s : σ} {storage : κ} {fuel : ℕ} (hf : as.length < fuel) (hI : I as s)
    (hs : ∀ a bs, as = a :: bs → storage = (bs.map f).headD h) :
    ∃ vs t, forEachSafe next entry body h fuel ((as.map f).headD h) storage s = some (vs, t) ∧
      Q vs t := by
  induction as generalizing s storage fuel with
  | nil =>
    obtain ⟨fuel, rfl⟩ : ∃ k, fuel = k + 1 := ⟨fuel - 1, by simp at hf; omega⟩
    exact ⟨[], s, by simp [forEachSafe], done s hI⟩
  | cons a as ih =>
    obtain ⟨fuel, rfl⟩ : ∃ k, fuel = k + 1 := ⟨fuel - 1, by simp at hf; omega⟩
    obtain ⟨hne, hent, -⟩ := head a as s hI
    obtain ⟨stop, s', hb, hcase⟩ := step a as s hI
    obtain rfl := hs a as rfl
    simp only [List.map_cons, List.headD_cons, forEachSafe, hne, ↓reduceIte, hent, hb,
      Option.bind_eq_bind, Option.bind_some]
    cases stop with
    | true => exact ⟨[a], s', rfl, by simpa using hcase⟩
    | false =>
      simp only [Bool.false_eq_true, ↓reduceIte] at hcase
      have hnext : ∀ b bs, as = b :: bs → next s' ((as.map f).headD h) = (bs.map f).headD h := by
        rintro b bs rfl
        exact (head b bs s' hcase.1).2.2
      obtain ⟨vs, t, he, hq⟩ := ih (by simp at hf; omega) hcase.1 hnext
      refine ⟨a :: vs, t, ?_, hcase.2 vs t hq⟩
      simp only [Bool.false_eq_true, ↓reduceIte, he, Option.bind_some]

/-- A property that the body keeps holds after the loop, whatever the list looks like. -/
theorem forEachSafe_preserves {next : σ → κ → κ} {entry : σ → κ → Option α}
    {body : α → σ → Option (Bool × σ)} {h : κ} (P : σ → Prop)
    (hbody : ∀ {c a s stop s'}, entry s c = some a → P s → body a s = some (stop, s') → P s')
    {fuel : ℕ} {pos storage : κ}
    {s t : σ} {vs : List α} (hP : P s)
    (he : forEachSafe next entry body h fuel pos storage s = some (vs, t)) : P t := by
  induction fuel generalizing pos storage s vs with
  | zero => simp [forEachSafe] at he
  | succ fuel ih =>
    unfold forEachSafe at he
    split_ifs at he with hpos
    · obtain ⟨-, rfl⟩ : [] = vs ∧ s = t := by simpa using he
      exact hP
    · obtain ⟨a, ha, he⟩ := Option.bind_eq_some_iff.mp he
      obtain ⟨⟨stop, s'⟩, hb, he⟩ := Option.bind_eq_some_iff.mp he
      have hP' := hbody ha hP hb
      cases stop with
      | true =>
        obtain ⟨-, rfl⟩ : [a] = vs ∧ s' = t := by simpa using he
        exact hP'
      | false =>
        obtain ⟨⟨as, t'⟩, hr, he⟩ := Option.bind_eq_some_iff.mp he
        obtain ⟨-, rfl⟩ : a :: as = vs ∧ t' = t := by simpa using he
        exact ih hP' hr

end Tbm.Links
