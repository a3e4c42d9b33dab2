import Tbm.Bufmgr.Mapping
import Tbm.Bufmgr.Calls

/-! The backend locks of buffer objects under every schedule of threads that map and unmap. -/
namespace Tbm.Bufmgr

open Prog Runs

section Frames

variable {me : ℕ} {op : MapOp} {s s' : State} {p p' : Phase}

/-- No data step ends at the beginning of a call. -/
theorem Effect.next (h : Effect me op s p s' p') : p' = .rest ∨ ∃ b r, p' = .inside b r ∧
    (p = .calling (.map (some b)) ∧ b ∈ s.boList ∨ p = .inside b none) ∧ s'.boList = s.boList := by
  cases h with
  | enter hb => exact .inr ⟨_, _, rfl, .inl ⟨rfl, hb⟩, rfl⟩
  | locked hb => exact .inr ⟨_, _, rfl, .inr rfl, rfl⟩
  | lockFailed hb => exact .inr ⟨_, _, rfl, .inr rfl, rfl⟩
  | _ => exact .inl rfl

theorem Effect.window (h : Effect me op s p s' p') (hw : s.window me = p.window) :
    s'.window = Function.update s.window me p'.window := by
  cases h with
  | enter => rfl
  | locked => rfl
  | left => rfl
  | mapped => rfl
  | mapFailed => rfl
  | lockFailed hb =>
    rw [show (Phase.inside _ (some false)).window = s.window me by rw [hw]; rfl,
      Function.update_eq_self]
  | _ =>
    rw [show Phase.rest.window = s.window me by rw [hw]; rfl]
    exact (Function.update_eq_self _ _).symm

theorem Effect.lockType (h : Effect me op s p s' p') : s'.lockType = s.lockType := by
  cases h <;> rfl

@[simp] theorem adjust_refCnt (s : State) (b c : Bo) (n : ℤ) (k : UInt32) :
    ((s.adjust b n k).bo c).refCnt = (s.bo c).refCnt := by
  by_cases e : c = b
  · subst e
    simp [State.adjust, State.setBo]
  · simp [State.adjust, State.setBo, e]

theorem Effect.refs (h : Effect me op s p s' p') :
    (s'.boList = s.boList ∧ ∀ c, (s'.bo c).refCnt = (s.bo c).refCnt) ∨
    ∃ b ∈ s.boList, p = .calling (.unref (some b)) ∧
      (∀ c, c ≠ b → (s'.bo c).refCnt = (s.bo c).refCnt) ∧
      (s'.boList = s.boList ∧ (s'.bo b).refCnt = (s.bo b).refCnt - 1 ∨
        s'.boList = s.boList.erase b ∧ (s.bo b).refCnt = 1) := by
  cases h with
  | @unref _ b hb h1 =>
    refine .inr ⟨b, hb, rfl, fun c hc => ?_, .inl ⟨rfl, ?_⟩⟩
    · simp [State.setRefCnt, State.setBo, hc]
    · simp [State.setRefCnt, State.setBo]
  | @free _ b bo hb h1 hbo =>
    refine .inr ⟨b, hb, rfl, fun c hc => ?_, .inr ⟨rfl, h1⟩⟩
    rw [← hbo c hc]
  | again => exact .inl ⟨rfl, fun c => adjust_refCnt _ _ c _ _⟩
  | againFailed => exact .inl ⟨rfl, fun c => adjust_refCnt _ _ c _ _⟩
  | mapped => exact .inl ⟨rfl, fun c => adjust_refCnt _ _ c _ _⟩
  | unmapped => exact .inl ⟨rfl, fun c => adjust_refCnt _ _ c _ _⟩
  | unmappedOnly => exact .inl ⟨rfl, fun c => adjust_refCnt _ _ c _ _⟩
  | _ => exact .inl ⟨rfl, fun _ => rfl⟩

end Frames

section Sums

variable {n : ℕ} {f g : Fin n → ℕ} {t u : Fin n}

theorem sum_change (h : ∀ u, u ≠ t → f u = g u) : ∑ u, f u + g t = ∑ u, g u + f t := by
  rw [← Finset.add_sum_erase Finset.univ f (Finset.mem_univ t),
    ← Finset.add_sum_erase Finset.univ g (Finset.mem_univ t)]
  have hrest : ∑ u ∈ Finset.univ.erase t, f u = ∑ u ∈ Finset.univ.erase t, g u := by
    apply Finset.sum_congr rfl
    intro u hu
    exact h u (Finset.ne_of_mem_erase hu)
  rw [hrest]
  omega

theorem add_le_sum (h : t ≠ u) : f t + f u ≤ ∑ v, f v := by
  rw [← Finset.sum_pair h]
  exact Finset.sum_le_sum_of_subset (Finset.subset_univ _)

end Sums

section Sound

variable {n : ℕ} {s s' : State} {φ : Fin n → Phase} {held : Fin n → Bo → ℕ} {t : Fin n} {b : Bo}
  {op : MapOp} {p : Phase}

/-- The reference a thread is about to give up. -/
def Phase.pending (p : Phase) (b : Bo) : ℕ := if p = .calling (.unref (some b)) then 1 else 0

/-- The references the threads own are counted, a thread that maps owns one, and the observer shows
who is in the window. -/
structure Sound (s : State) (φ : Fin n → Phase) (held : Fin n → Bo → ℕ) : Prop where
  refs : ∀ b ∈ s.boList, ((∑ t, (held t b + (φ t).pending b) : ℕ) : ℤ) ≤ (s.bo b).refCnt
  maps : ∀ t b, φ t = .calling (.map (some b)) → 0 < held t b
  inside : ∀ t b r, φ t = .inside b r → b ∈ s.boList ∧ 0 < held t b
  window : ∀ t : Fin n, s.window t = (φ t).window
  outside : ∀ i, n ≤ i → s.window i = none
  nodup : s.boList.Nodup

/-- With one reference left and that one about to go, no thread is in the window. -/
theorem Sound.last (h : Sound s φ held) (hb : b ∈ s.boList) (h1 : (s.bo b).refCnt = 1)
    (ht : φ t = .calling (.unref (some b))) {u : Fin n} {r : Option Bool} :
    φ u ≠ .inside b r := by
  intro hu
  have hne : t ≠ u := by
    rintro rfl
    simp [ht] at hu
  have hpos := (h.inside u b r hu).2
  have hpend : (φ t).pending b = 1 := by simp [Phase.pending, ht]
  have hsum := add_le_sum (f := fun v => held v b + (φ v).pending b) hne
  have hrefs := h.refs b hb
  omega

theorem Sound.refs_act (h : Sound s φ held) (he : Effect t op s (φ t) s' p) :
    ∀ c ∈ s'.boList, ((∑ u, (held u c + (Function.update φ t p u).pending c) : ℕ) : ℤ) ≤
      (s'.bo c).refCnt := by
  intro c hc
  have hp : p.pending c = 0 := by
    rcases he.next with rfl | ⟨b, r, rfl, -⟩
    · simp [Phase.pending]
    · simp [Phase.pending]
  have hsum := sum_change (t := t) (f := fun u => held u c + (Function.update φ t p u).pending c)
    (g := fun u => held u c + (φ u).pending c) (by
      intro u hu
      simp [hu])
  simp only [Function.update_self, hp] at hsum
  rcases he.refs with ⟨hl, hr⟩ | ⟨b, hb, hpb, hother, hcase⟩
  · rw [hl] at hc
    have := h.refs c hc
    rw [hr c]
    omega
  · by_cases e : c = b
    · subst e
      have hpend : (φ t).pending c = 1 := by simp [Phase.pending, hpb]
      have := h.refs c hb
      rcases hcase with ⟨hl, hr⟩ | ⟨hl, -⟩
      · omega
      · rw [hl] at hc
        exact absurd rfl (h.nodup.mem_erase_iff.mp hc).1
    · have hin : c ∈ s.boList := by
        rcases hcase with ⟨hl, -⟩ | ⟨hl, -⟩
        · rwa [hl] at hc
        · rw [hl] at hc
          exact List.mem_of_mem_erase hc
      have := h.refs c hin
      rw [hother c e]
      omega

theorem Sound.act (h : Sound s φ held) (he : Effect t op s (φ t) s' p) :
    Sound s' (Function.update φ t p) held := by
  have hw := he.window (h.window t)
  refine ⟨h.refs_act he, ?_, ?_, ?_, ?_, ?_⟩
  · intro u b hu
    by_cases e : u = t
    · subst e
      rw [Function.update_self] at hu
      rcases he.next with rfl | ⟨c, r, rfl, -⟩
      · simp at hu
      · simp at hu
    · rw [Function.update_of_ne e] at hu
      exact h.maps u b hu
  · intro u b r hu
    by_cases e : u = t
    · subst e
      rw [Function.update_self] at hu
      rcases he.next with rfl | ⟨c, r', rfl, hfrom, hl⟩
      · simp at hu
      · obtain ⟨rfl, rfl⟩ : c = b ∧ r' = r := by simpa using hu
        rw [hl]
        rcases hfrom with ⟨hfrom, hin⟩ | hfrom
        · exact ⟨hin, h.maps u c hfrom⟩
        · exact h.inside u c none hfrom
    · rw [Function.update_of_ne e] at hu
      obtain ⟨hin, hpos⟩ := h.inside u b r hu
      refine ⟨?_, hpos⟩
      rcases he.refs with ⟨hl, -⟩ | ⟨c, hc, hpc, -, hcase⟩
      · rwa [hl]
      · rcases hcase with ⟨hl, -⟩ | ⟨hl, h1⟩
        · rwa [hl]
        · rw [hl]
          have hne : b ≠ c := by
            rintro rfl
            exact h.last hc h1 hpc hu
          exact (List.mem_erase_of_ne hne).mpr hin
  · intro u
    rw [hw]
    by_cases e : u = t
    · subst e
      simp
    · have hv : (u : ℕ) ≠ t := fun hv => e (Fin.ext hv)
      rw [Function.update_of_ne hv, Function.update_of_ne e]
      exact h.window u
  · intro i hi
    have hv : i ≠ t := by
      have := t.isLt
      omega
    rw [hw, Function.update_of_ne hv]
    exact h.outside i hi
  · rcases he.refs with ⟨hl, -⟩ | ⟨c, hc, hpc, -, hcase⟩
    · rw [hl]
      exact h.nodup
    · rcases hcase with ⟨hl, -⟩ | ⟨hl, -⟩
      · rw [hl]
        exact h.nodup
      · rw [hl]
        exact h.nodup.erase c

end Sound

/-- The threads, and the references each of them owns. -/
structure Crew (n : ℕ) : Type 1 where
  config : Config (Fin n) Mutex Empty Empty Answers State MapOp Bool
  held : Fin n → Bo → ℕ

namespace Crew

variable {n : ℕ}

def start (s : State) (held : Fin n → Bo → ℕ) : Crew n where
  config := .initial s
  held := held

/-- A thread that calls `tbm_bo_unref` gives the reference up. -/
def settle (w : Crew n) : Action (Fin n) Answers MapOp → Fin n → Bo → ℕ
  | .call t (.unref (some b)) =>
    Function.update w.held t (Function.update (w.held t) b (w.held t b - 1))
  | _ => w.held

def step (backend : Backend) (a : Action (Fin n) Answers MapOp) (w : Crew n) :
    Option (Unit × Crew n) := do
  let (_, c) ← w.config.step (fun t op => op.prog backend t) a
  some ((), ⟨c, w.settle a⟩)

/-- A thread maps and drops only what it owns a reference on. -/
def owns (w : Crew n) : Action (Fin n) Answers MapOp → Bool
  | .call t (.map (some b)) | .call t (.unref (some b)) => decide (0 < w.held t b)
  | _ => true

/-- A thread that finds `lock_cnt` zero finds no thread in the window. -/
def alone (w : Crew n) : Action (Fin n) Answers MapOp → Bool
  | .step t =>
    match w.config.thread t with
    | .run _ (.map (some b)) (.act _ _) =>
      (w.config.data.window t).isSome || decide ((w.config.data.bo b).lockCnt ≠ 0) ||
        decide (∀ u : Fin n, (w.config.data.window u).map Prod.fst ≠ some b)
    | _ => true
  | _ => true

end Crew

section Steps

variable {backend : Backend} {n : ℕ} {w w' : Crew n} {φ : Fin n → Phase} {t : Fin n}

/-- At a call the reference that is given up becomes pending. -/
theorem Sound.call {s : State} {held held' : Fin n → Bo → ℕ} {op : MapOp} (h : Sound s φ held)
    (ht : φ t = .rest) (hother : ∀ u, u ≠ t → held' u = held u)
    (hself : ∀ b, held' t b + (Phase.calling op).pending b = held t b)
    (hmap : ∀ b, op = .map (some b) → 0 < held' t b) :
    Sound s (Function.update φ t (.calling op)) held' := by
  have hp (b : Bo) : (φ t).pending b = 0 := by simp [Phase.pending, ht]
  refine ⟨?_, ?_, ?_, ?_, h.outside, h.nodup⟩
  · intro b hb
    have hsum := sum_change (t := t)
      (f := fun u => held' u b + (Function.update φ t (.calling op) u).pending b)
      (g := fun u => held u b + (φ u).pending b) (by
        intro u hu
        simp [hu, hother u hu])
    simp only [Function.update_self, hself b, hp b] at hsum
    have := h.refs b hb
    omega
  · intro u b hu
    by_cases e : u = t
    · subst e
      rw [Function.update_self] at hu
      exact hmap b (by simpa using hu)
    · rw [Function.update_of_ne e] at hu
      rw [hother u e]
      exact h.maps u b hu
  · intro u b r hu
    by_cases e : u = t
    · subst e
      rw [Function.update_self] at hu
      simp at hu
    · rw [Function.update_of_ne e] at hu
      rw [hother u e]
      exact h.inside u b r hu
  · intro u
    by_cases e : u = t
    · subst e
      rw [Function.update_self, h.window u, ht]
      rfl
    · rw [Function.update_of_ne e]
      exact h.window u

theorem Sound.settle {s : State} {op : MapOp} (h : Sound s φ w.held) (ht : φ t = .rest)
    (ho : w.owns (.call t op) = true) :
    Sound s (Function.update φ t (.calling op)) (w.settle (.call t op)) := by
  cases op with
  | map b =>
    refine h.call ht (fun _ _ => rfl) (fun c => by simp [Phase.pending, Crew.settle]) ?_
    rintro c hc
    obtain rfl : b = some c := by simpa using hc
    have hpos : 0 < w.held t c := by simpa [Crew.owns] using ho
    exact hpos
  | unmap b =>
    exact h.call ht (fun _ _ => rfl) (fun c => by simp [Phase.pending, Crew.settle]) (by simp)
  | unref b =>
    cases b with
    | none =>
      exact h.call ht (fun _ _ => rfl) (fun c => by simp [Phase.pending, Crew.settle]) (by simp)
    | some b =>
      have hpos : 0 < w.held t b := by simpa [Crew.owns] using ho
      refine h.call ht (fun u hu => by simp [Crew.settle, hu]) (fun c => ?_) (by simp)
      by_cases e : c = b
      · subst e
        simp only [Crew.settle, Function.update_self, Phase.pending, if_true]
        omega
      · have hne : b ≠ c := fun h => e h.symm
        simp [Crew.settle, Phase.pending, e, hne]

/-- The phases fit the programs, and the references are in order. -/
structure Fit (backend : Backend) (w : Crew n) (φ : Fin n → Phase) : Prop where
  tracks : Config.Tracks (fun (t : Fin n) op => MapStep backend t op) .rest w.config φ
  sound : Sound w.config.data φ w.held

/-- A step of a schedule: the data stays, or a thread takes one of its data steps. -/
theorem Fit.step (h : Fit backend w φ) {a : Action (Fin n) Answers MapOp} {x : Unit}
    (hk : backend.boLock = true) (hu : backend.boUnlock = true) (ht : Tight w.config.data)
    (ho : w.owns a = true) (hs : w.step backend a = some (x, w')) :
    ∃ ψ, Fit backend w' ψ ∧ (w'.config.data = w.config.data ∨ ∃ t op r, ∃ β : Type,
      ∃ (f : State → Option (β × State)) (k : β → BProg Bool),
      a = .step t ∧ w.config.thread t = .run r op (.act f k) ∧
      Effect t op w.config.data (φ t) w'.config.data (ψ t)) := by
  obtain ⟨⟨x', c⟩, hc, hw⟩ := Option.bind_eq_some_iff.mp hs
  obtain rfl : ⟨c, w.settle a⟩ = w' := by simpa using hw
  have hcode : ∀ (t : Fin n) op, (MapOp.prog backend t op).Follows (MapStep backend t op) .rest
      (.calling op) := fun t op => op.prog_follows
  obtain ⟨ψ, htr, hl⟩ := h.tracks.moved hcode (Config.moved_of_step hc)
  cases hl with
  | call hrest hd =>
    refine ⟨_, ⟨htr, ?_⟩, .inl hd⟩
    rw [hd]
    exact h.sound.settle hrest ho
  | quiet ha hd =>
    refine ⟨_, ⟨htr, ?_⟩, .inl hd⟩
    rw [hd]
    have hheld : w.settle a = w.held := by
      unfold Crew.settle
      split
      next => exact absurd rfl (ha _ _)
      next => rfl
    rw [hheld]
    exact h.sound
  | @act t op r _ p β f k hthread hr =>
    have he := hr.effect hk hu ht (h.sound.window t)
    refine ⟨_, ⟨htr, h.sound.act he⟩, .inr ⟨t, op, r, β, f, k, rfl, hthread, ?_⟩⟩
    rw [Function.update_self]
    exact he

end Steps

section Balance

variable {n me : ℕ} {s s' : State} {op : MapOp} {p p' : Phase} {b : Bo}

/-- A thread in the window that has the backend lock. -/
def flag (v : Option (Bo × Bool)) (b : Bo) : ℕ := if v = some (b, true) then 1 else 0

/-- Locks less unlocks are the counted ones and those of threads in the window. -/
def Balanced (n : ℕ) (s : State) : Prop := ∀ b, (s.locks b : ℤ) =
  s.unlocks b + (s.bo b).lockCnt + (∑ t : Fin n, flag (s.window t) b : ℕ)

theorem adjust_lockCnt (s : State) (b c : Bo) (k : ℤ) (j : UInt32) :
    ((s.adjust b k j).bo c).lockCnt = if c = b then k else (s.bo c).lockCnt := by
  by_cases e : c = b
  · subst e
    simp [State.adjust, State.setBo]
  · simp [State.adjust, State.setBo, e]

theorem Effect.balance (h : Effect me op s p s' p') (ht : Tight s) (c : Bo) :
    (s'.locks c : ℤ) - s'.unlocks c - (s'.bo c).lockCnt + flag p.window c =
      s.locks c - s.unlocks c - (s.bo c).lockCnt + flag p'.window c := by
  cases h with
  | refused => rfl
  | enter => simp [State.setWindow, flag, Phase.window]
  | lockFailed => simp [flag, Phase.window]
  | left => simp [State.setWindow, flag, Phase.window]
  | @again _ b =>
    by_cases e : c = b
    · subst e
      simp [State.addMaps, State.adjust, State.setBo, flag, Phase.window]
    · simp [State.addMaps, State.adjust, State.setBo, flag, Phase.window, e]
  | @againFailed _ b =>
    by_cases e : c = b
    · subst e
      simp only [State.unlocked, State.adjust, State.setBo, Function.update_self, Nat.cast_add,
        Nat.cast_one, flag, Phase.window, reduceCtorEq, ↓reduceIte, Nat.cast_zero, add_zero]
      omega
    · simp [State.unlocked, State.adjust, State.setBo, flag, Phase.window, e]
  | @locked _ _ b =>
    by_cases e : c = b
    · subst e
      simp only [Function.update_self, Nat.cast_add, Nat.cast_one, State.setWindow, flag,
        Phase.window, Option.getD_none, Option.some.injEq, Prod.mk.injEq, Bool.false_eq_true,
        and_false, ↓reduceIte, Nat.cast_zero, add_zero, Option.getD_some]
      omega
    · have hne : b ≠ c := fun h => e h.symm
      simp [State.setWindow, flag, Phase.window, e, hne]
  | @mapped _ _ b =>
    by_cases e : c = b
    · subst e
      simp only [State.addMaps, State.adjust, State.setBo, State.setWindow, Function.update_self,
        flag, Phase.window, Option.getD_some, ↓reduceIte, Nat.cast_one, reduceCtorEq,
        Nat.cast_zero, add_zero]
      omega
    · have hne : b ≠ c := fun h => e h.symm
      simp [State.setWindow, State.addMaps, State.adjust, State.setBo, flag, Phase.window, e, hne]
  | @mapFailed _ _ b =>
    by_cases e : c = b
    · subst e
      simp only [State.unlocked, State.setWindow, Function.update_self, Nat.cast_add, Nat.cast_one,
        flag, Phase.window, Option.getD_some, ↓reduceIte, reduceCtorEq, Nat.cast_zero, add_zero]
      omega
    · have hne : b ≠ c := fun h => e h.symm
      simp [State.setWindow, State.unlocked, flag, Phase.window, e, hne]
  | @unmapped _ b =>
    by_cases e : c = b
    · subst e
      simp only [State.unlocked, State.addMaps, State.adjust, State.setBo, Int.reduceNeg,
        Function.update_self, Nat.cast_add, Nat.cast_one, flag, Phase.window, reduceCtorEq,
        ↓reduceIte, Nat.cast_zero, add_zero]
      omega
    · simp [State.unlocked, State.addMaps, State.adjust, State.setBo, flag, Phase.window, e]
  | @unmappedOnly _ b _ h0 =>
    by_cases e : c = b
    · subst e
      simp [State.addMaps, State.adjust, State.setBo, flag, Phase.window, h0]
    · simp [State.addMaps, State.adjust, State.setBo, flag, Phase.window, e]
  | @unref _ b =>
    by_cases e : c = b
    · subst e
      simp [State.setRefCnt, State.setBo, flag, Phase.window]
    · simp [State.setRefCnt, State.setBo, flag, Phase.window, e]
  | @free _ b bo _ _ hbo h0 =>
    by_cases e : c = b
    · subst e
      have hn := ht.nonneg c
      simp only [Function.update_self, Nat.cast_add, Int.ofNat_toNat, h0, sub_zero, flag,
        Phase.window, reduceCtorEq, ↓reduceIte, Nat.cast_zero, add_zero]
      omega
    · simp [hbo c e, flag, Phase.window, e]

theorem Balanced.act {t : Fin n} (hb : Balanced n s) (h : Effect t op s p s' p')
    (hw : s.window t = p.window) (ht : Tight s) : Balanced n s' := by
  intro c
  have hbal := h.balance ht c
  have hw' := h.window hw
  have hsum := sum_change (t := t) (f := fun u : Fin n => flag (s'.window u) c)
    (g := fun u => flag (s.window u) c) (by
      intro u hu
      have hv : (u : ℕ) ≠ t := fun hv => hu (Fin.ext hv)
      simp [hw', hv])
  simp only [hw', Function.update_self, hw] at hsum
  have := hb c
  rw [hw']
  omega

theorem flags_eq_zero (h : ∀ (t : Fin n) ok, s.window t ≠ some (b, ok)) :
    ∑ t : Fin n, flag (s.window t) b = 0 := by
  apply Finset.sum_eq_zero
  intro t _
  exact if_neg (h t true)

/-- Nobody is in the window on a buffer object that is gone. -/
theorem Sound.window_ne {φ : Fin n → Phase} {held : Fin n → Bo → ℕ} (h : Sound s φ held)
    (hb : b ∉ s.boList) (t : Fin n) (ok : Bool) : s.window t ≠ some (b, ok) := by
  intro hw
  rw [h.window t] at hw
  cases hp : φ t with
  | inside c r =>
    rw [hp] at hw
    obtain ⟨rfl, -⟩ : c = b ∧ r.getD false = ok := by simpa [Phase.window] using hw
    exact hb (h.inside t c r hp).1
  | rest => simp [hp, Phase.window] at hw
  | calling op => simp [hp, Phase.window] at hw

/-- Nothing is locked on a buffer object that is gone. -/
def Released (s : State) : Prop := ∀ b, b ∉ s.boList → (s.bo b).lockCnt = 0

theorem Released.act (hr : Released s) (h : Effect me op s p s' p') : Released s' := by
  have hother {c d : Bo} (hin : d ∈ s.boList) (hc : c ∉ s.boList) : c ≠ d := fun e => hc (e ▸ hin)
  intro c hc
  cases h with
  | again hb | againFailed hb | mapped hb | unmapped hb | unmappedOnly hb =>
    have h0 := hr c hc
    rw [← h0]
    exact (adjust_lockCnt _ _ c _ _).trans (if_neg (hother hb hc))
  | @unref _ b hb =>
    have h0 := hr c hc
    simpa [State.setRefCnt, State.setBo, hother hb hc] using h0
  | @free _ b bo hb _ hbo h0 =>
    by_cases e : c = b
    · subst e
      exact h0
    · have hout : c ∉ s.boList := fun hin => hc ((List.mem_erase_of_ne e).mpr hin)
      have hz := hr c hout
      rw [← hbo c e] at hz
      exact hz
  | _ => exact hr c hc

end Balance

section Start

variable {backend : Backend} {n : ℕ} {s : State} {held : Fin n → Bo → ℕ}

/-- Nothing is mapped or locked, and the threads' references are among those counted. -/
structure Unmapped (s : State) (held : Fin n → Bo → ℕ) : Prop where
  nodup : s.boList.Nodup
  counts : ∀ b, (s.bo b).lockCnt = 0 ∧ (s.bo b).mapCnt = 0 ∧ s.maps b = 0
  locks : ∀ b, s.locks b = s.unlocks b
  window : ∀ i, s.window i = none
  refs : ∀ b ∈ s.boList, ((∑ t, held t b : ℕ) : ℤ) ≤ (s.bo b).refCnt

theorem Unmapped.fit (h : Unmapped s held) : Fit backend (.start s held) fun _ => .rest := by
  refine ⟨fun t => rfl, ?_, by simp, by simp, ?_, fun i _ => h.window i, h.nodup⟩
  · intro b hb
    simpa [Phase.pending, Crew.start, Config.initial] using h.refs b hb
  · intro t
    exact h.window t

theorem Unmapped.balanced (h : Unmapped s held) : Balanced n s := by
  intro b
  simp [h.locks b, (h.counts b).1, h.window, flag]

/-- One buffer object with two references. -/
def mappable (l : LockType) : State :=
  { State.initial with
    gBufMgr := some 0
    refCount := 1
    lockType := l
    boCnt := 1
    boList := [0]
    mgrs := 1
    bos := 1
    bo := Function.update State.initial.bo 0
      { refCnt := 2, flags := 0, priv := some 7, surface := none, lockCnt := 0, mapCnt := 0 } }

theorem mappable_unmapped (l : LockType) :
    Unmapped (mappable l) fun (_ : Fin 2) b => if b = 0 then 1 else 0 := by
  refine ⟨by simp [mappable], fun b => ?_, fun b => rfl, fun i => rfl, ?_⟩
  · by_cases e : b = 0
    · simp [mappable, State.initial, e]
    · simp [mappable, State.initial, e]
  · simp [mappable]

/-- A thread calls `tbm_bo_map` and leaves the mutex. -/
private def entering (t : Fin 2) : List (Action (Fin 2) Answers MapOp) :=
  [.call t (.map (some 0)), .step t, .input t (.granted 7), .step t, .step t]

/-- The backend locks, and the map succeeds or fails. -/
private def leaving (t : Fin 2) (ok : Bool) : List (Action (Fin 2) Answers MapOp) :=
  [.input t (.granted 7), .step t, .step t, .input t { Answers.granted 7 with map := ok }, .step t,
    .step t, .step t]

private def unmapping (t : Fin 2) : List (Action (Fin 2) Answers MapOp) :=
  [.call t (.unmap (some 0)), .step t, .input t (.granted 7), .step t, .step t, .step t]

private def dropping (t : Fin 2) : List (Action (Fin 2) Answers MapOp) :=
  [.call t (.unref (some 0)), .step t, .step t, .step t, .step t]

end Start

section Always

variable {n me : ℕ} {s s' : State} {op : MapOp} {p p' : Phase} {b : Bo}

/-- With `LOCK_TRY_ALWAYS` every outstanding map has a lock. -/
structure Mapped (s : State) : Prop where
  lockType : s.lockType = .tryAlways
  range : ∀ b, 0 ≤ (s.bo b).lockCnt ∧ (s.bo b).lockCnt < 2 ^ 31
  mapCnt : ∀ b ∈ s.boList, (s.bo b).mapCnt = .ofNat (s.bo b).lockCnt.toNat
  maps : ∀ b ∈ s.boList, s.maps b = (s.bo b).lockCnt

theorem Mapped.tight (h : Mapped s) : Tight s :=
  ⟨fun b => (h.range b).1, .inl h.lockType⟩

theorem Mapped.adjust (h : Mapped s) {k : ℤ} {j : UInt32} (hk : 0 ≤ k ∧ k < 2 ^ 31)
    (hj : j = .ofNat k.toNat) (hl : s'.lockType = s.lockType) (hlist : s'.boList = s.boList)
    (hbo : s'.bo = (s.adjust b k j).bo)
    (hmaps : s'.maps = Function.update s.maps b k) : Mapped s' := by
  refine ⟨by rw [hl, h.lockType], ?_, ?_, ?_⟩
  · intro c
    rw [hbo, adjust_lockCnt]
    split_ifs
    · exact hk
    · exact h.range c
  · intro c hc
    rw [hlist] at hc
    by_cases e : c = b
    · subst e
      simp [hbo, State.adjust, State.setBo, hj]
    · simpa [hbo, State.adjust, State.setBo, e] using h.mapCnt c hc
  · intro c hc
    rw [hlist] at hc
    by_cases e : c = b
    · subst e
      simp [hbo, hmaps, State.adjust, State.setBo]
    · simpa [hbo, hmaps, State.adjust, State.setBo, e] using h.maps c hc

theorem Mapped.mono (h : Mapped s) (hl : s'.lockType = s.lockType) (hmaps : s'.maps = s.maps)
    (hrange : ∀ c, 0 ≤ (s'.bo c).lockCnt ∧ (s'.bo c).lockCnt < 2 ^ 31)
    (hbo : ∀ c ∈ s'.boList, c ∈ s.boList ∧ (s'.bo c).lockCnt = (s.bo c).lockCnt ∧
      (s'.bo c).mapCnt = (s.bo c).mapCnt) : Mapped s' := by
  refine ⟨by rw [hl, h.lockType], hrange, ?_, ?_⟩
  · intro c hc
    obtain ⟨hin, h1, h2⟩ := hbo c hc
    rw [h1, h2]
    exact h.mapCnt c hin
  · intro c hc
    obtain ⟨hin, h1, -⟩ := hbo c hc
    rw [h1, hmaps]
    exact h.maps c hin

theorem Mapped.act (hm : Mapped s) (hn : s.boList.Nodup) (h : Effect me op s p s' p')
    (hpos : ∀ b ∈ s'.boList, 0 ≤ s'.maps b) : Mapped s' := by
  cases h with
  | refused | enter | locked | lockFailed | left | mapFailed => exact { hm with }
  | again _ _ hl => simp [hm.lockType] at hl
  | againFailed _ _ hl => simp [hm.lockType] at hl
  | @mapped _ _ b hb hlt =>
    have hr := hm.range b
    have hsucc : ((s.bo b).lockCnt + 1).toNat = (s.bo b).lockCnt.toNat + 1 := by omega
    refine hm.adjust (b := b) ⟨by omega, by omega⟩ ?_ rfl rfl rfl ?_
    · rw [hsucc, UInt32.ofNat_add, ← hm.mapCnt b hb]
      rfl
    · simp [State.addMaps, State.setWindow, State.adjust, State.setBo, hm.maps b hb]
  | @unmapped _ b hb hp =>
    have hr := hm.range b
    have hsucc : (s.bo b).lockCnt.toNat = ((s.bo b).lockCnt - 1).toNat + 1 := by omega
    refine hm.adjust (b := b) (k := (s.bo b).lockCnt - 1) ⟨by omega, by omega⟩ ?_ rfl rfl rfl ?_
    · rw [hm.mapCnt b hb, hsucc, UInt32.ofNat_add]
      grind
    · rw [show (s.bo b).lockCnt - 1 = s.maps b + -1 by rw [hm.maps b hb]; omega]
      rfl
  | @unmappedOnly _ b hb h0 =>
    have hneg := hpos b hb
    simp [State.addMaps, State.adjust, State.setBo, hm.maps b hb, h0] at hneg
  | @unref _ b hb =>
    have hsame (c : Bo) : ((s.setRefCnt b ((s.bo b).refCnt - 1)).bo c).lockCnt = (s.bo c).lockCnt ∧
        ((s.setRefCnt b ((s.bo b).refCnt - 1)).bo c).mapCnt = (s.bo c).mapCnt := by
      by_cases e : c = b
      · subst e
        simp [State.setRefCnt, State.setBo]
      · simp [State.setRefCnt, State.setBo, e]
    refine hm.mono rfl rfl (fun c => ?_) fun c hc => ⟨hc, hsame c⟩
    rw [(hsame c).1]
    exact hm.range c
  | @free _ b bo hb _ hbo h0 =>
    refine hm.mono rfl rfl (fun c => ?_) fun c hc => ?_
    · by_cases e : c = b
      · subst e
        show 0 ≤ (bo c).lockCnt ∧ (bo c).lockCnt < 2 ^ 31
        omega
      · have hr := hm.range c
        rw [← hbo c e] at hr
        exact hr
    · obtain ⟨hne, hin⟩ := hn.mem_erase_iff.mp hc
      exact ⟨hin, by rw [← hbo c hne], by rw [← hbo c hne]⟩

variable {backend : Backend} {held : Fin n → Bo → ℕ} {w : Crew n}
  {acts : List (Action (Fin n) Answers MapOp)}
  {log : List (Entry (Crew n) (Action (Fin n) Answers MapOp) Unit)}

/-- With `LOCK_TRY_ALWAYS`, outside the window the backend locks of a buffer object are counted by
`lock_cnt` and by `map_cnt`, and what is freed is not locked. -/
theorem lock_balance_always (hk : backend.boLock = true) (hu : backend.boUnlock = true)
    (hl : s.lockType = .tryAlways) (h0 : Unmapped s held)
    (hp : Permitted (Crew.step backend) (fun w a => w.owns a) acts (.start s held))
    (hr : run (Crew.step backend) acts (.start s held) = some (log, w))
    (hm : ∀ e ∈ log, ∀ b ∈ e.after.config.data.boList, 0 ≤ e.after.config.data.maps b) (b : Bo) :
    (b ∈ w.config.data.boList → (∀ (t : Fin n) ok, w.config.data.window t ≠ some (b, ok)) →
      (w.config.data.locks b : ℤ) - w.config.data.unlocks b = (w.config.data.bo b).lockCnt ∧
      (w.config.data.bo b).lockCnt = (w.config.data.bo b).mapCnt.toNat) ∧
    (b ∉ w.config.data.boList → w.config.data.locks b = w.config.data.unlocks b) := by
  have hstart : Mapped s := by
    refine ⟨hl, fun b => ?_, fun b _ => ?_, fun b _ => ?_⟩
    · rw [(h0.counts b).1]
      omega
    · rw [(h0.counts b).1, (h0.counts b).2.1]
      rfl
    · rw [(h0.counts b).1, (h0.counts b).2.2]
  obtain ⟨φ, hfit, hmapped, hbal, hrel⟩ := run_safe (fun log w =>
    (∀ e ∈ log, ∀ b ∈ e.after.config.data.boList, 0 ≤ e.after.config.data.maps b) →
      ∃ φ, Fit backend w φ ∧
      Mapped w.config.data ∧ Balanced n w.config.data ∧ Released w.config.data)
    (fun _ => ⟨_, h0.fit, hstart, h0.balanced, fun b _ => (h0.counts b).1⟩) (by
      intro log w a r w' ih ho hs hm
      obtain ⟨φ, hfit, hmapped, hbal, hrel⟩ := ih fun e he => hm e (List.mem_append_left _ he)
      obtain ⟨ψ, hfit', hcase⟩ := hfit.step hk hu hmapped.tight ho hs
      refine ⟨ψ, hfit', ?_⟩
      rcases hcase with hd | ⟨t, op, _, _, _, _, _, _, he⟩
      · rw [hd]
        exact ⟨hmapped, hbal, hrel⟩
      · exact ⟨hmapped.act hfit.sound.nodup he (hm ⟨w, a, r, w'⟩ (by simp)),
          hbal.act he (hfit.sound.window t) hmapped.tight, hrel.act he⟩) hp hr hm
  have heq := hbal b
  constructor
  · intro hb hout
    rw [flags_eq_zero hout] at heq
    have hrange := hmapped.range b
    have hcnt : (w.config.data.bo b).mapCnt.toNat = (w.config.data.bo b).lockCnt.toNat := by
      rw [hmapped.mapCnt b hb, UInt32.toNat_ofNat_of_lt' (by
        simp only [UInt32.size]
        omega)]
    omega
  · intro hb
    rw [flags_eq_zero (hfit.sound.window_ne hb), hrel b hb] at heq
    omega

/-- Two threads overlap in the window, the map of one fails, and both drop their references. -/
theorem lock_balance_always_overlap : ∃ log w,
    run (Crew.step .plain) (entering 0 ++ entering 1 ++ leaving 0 true ++ leaving 1 false ++
      unmapping 0 ++ dropping 0 ++ dropping 1) (.start (mappable .tryAlways) fun _ b =>
        if b = 0 then 1 else 0) = some (log, w) ∧ w.config.data.frees = [0] ∧
    w.config.data.locks 0 = 2 ∧ ∀ b,
    (b ∈ w.config.data.boList → (∀ (t : Fin 2) ok, w.config.data.window t ≠ some (b, ok)) →
      (w.config.data.locks b : ℤ) - w.config.data.unlocks b = (w.config.data.bo b).lockCnt ∧
      (w.config.data.bo b).lockCnt = (w.config.data.bo b).mapCnt.toNat) ∧
    (b ∉ w.config.data.boList → w.config.data.locks b = w.config.data.unlocks b) := by
  have hrun : ((run (Crew.step .plain) (entering 0 ++ entering 1 ++ leaving 0 true ++
      leaving 1 false ++ unmapping 0 ++ dropping 0 ++ dropping 1) (.start (mappable .tryAlways)
        fun _ b => if b = 0 then 1 else 0)).map fun r => (r.2.config.data.frees,
          r.2.config.data.locks 0, r.1.all fun e => e.after.config.data.boList.all fun b =>
            decide (0 ≤ e.after.config.data.maps b))) = some ([0], 2, true) := by
    decide +kernel
  obtain ⟨⟨log, w⟩, hr, hw⟩ := Option.map_eq_some_iff.mp hrun
  obtain ⟨hfrees, hlocks, hmaps⟩ : w.config.data.frees = [0] ∧ w.config.data.locks 0 = 2 ∧
      ∀ e ∈ log, ∀ b ∈ e.after.config.data.boList, 0 ≤ e.after.config.data.maps b := by
    simpa using hw
  exact ⟨log, w, hr, hfrees, hlocks, lock_balance_always rfl rfl rfl (mappable_unmapped _)
    (by decide +kernel) hr hmaps⟩

end Always

section Once

variable {n me : ℕ} {s s' : State} {op : MapOp} {p p' : Phase} {b : Bo}

private theorem adjust_le {k : ℤ} {j : UInt32} {Q : Prop} (ht : Tight s) (h0 : 0 ≤ k)
    (hle : k ≤ (s.bo b).lockCnt) (c : Bo) : 0 ≤ ((s.adjust b k j).bo c).lockCnt ∧
      (((s.adjust b k j).bo c).lockCnt ≤ (s.bo c).lockCnt ∨ Q) := by
  rw [adjust_lockCnt]
  have hc := ht.nonneg c
  by_cases e : c = b
  · subst e
    rw [if_pos rfl]
    exact ⟨h0, .inl hle⟩
  · rw [if_neg e]
    exact ⟨hc, .inl (Int.le_refl _)⟩

/-- `lock_cnt` grows only where a thread leaves the window with the lock. -/
theorem Effect.lockCnt (h : Effect me op s p s' p') (ht : Tight s) (c : Bo) :
    0 ≤ (s'.bo c).lockCnt ∧ ((s'.bo c).lockCnt ≤ (s.bo c).lockCnt ∨
      p = .inside c (some true) ∧ p' = .rest ∧ (s'.bo c).lockCnt = (s.bo c).lockCnt + 1) := by
  have h0 := ht.nonneg c
  cases h with
  | again _ hpos => exact adjust_le ht (by omega) (Int.le_refl _) c
  | againFailed _ hpos => exact adjust_le ht (by omega) (by omega) c
  | unmapped _ hpos => exact adjust_le ht (by omega) (by omega) c
  | unmappedOnly _ hz => exact adjust_le ht (Int.le_refl 0) (by omega) c
  | @mapped _ _ b =>
    have hcnt := adjust_lockCnt (s.setWindow me none) b c ((s.bo b).lockCnt + 1)
      ((s.bo b).mapCnt + 1)
    show 0 ≤ (((s.setWindow me none).adjust b _ _).bo c).lockCnt ∧
      ((((s.setWindow me none).adjust b _ _).bo c).lockCnt ≤ _ ∨ _ ∧ _ ∧
        (((s.setWindow me none).adjust b _ _).bo c).lockCnt = _)
    rw [hcnt]
    by_cases e : c = b
    · subst e
      rw [if_pos rfl]
      exact ⟨by omega, .inr ⟨rfl, rfl, rfl⟩⟩
    · rw [if_neg e]
      exact ⟨h0, .inl (Int.le_refl _)⟩
  | @unref _ b =>
    have hcnt : ((s.setRefCnt b ((s.bo b).refCnt - 1)).bo c).lockCnt = (s.bo c).lockCnt := by
      by_cases e : c = b
      · subst e
        simp [State.setRefCnt, State.setBo]
      · simp [State.setRefCnt, State.setBo, e]
    rw [hcnt]
    exact ⟨h0, .inl (Int.le_refl _)⟩
  | @free _ b bo hb _ hbo hz =>
    by_cases e : c = b
    · subst e
      show 0 ≤ (bo c).lockCnt ∧ ((bo c).lockCnt ≤ _ ∨ _)
      rw [hz]
      exact ⟨Int.le_refl 0, .inl h0⟩
    · show 0 ≤ (bo c).lockCnt ∧ ((bo c).lockCnt ≤ _ ∨ _)
      rw [hbo c e]
      exact ⟨h0, .inl (Int.le_refl _)⟩
  | _ => exact ⟨h0, .inl (Int.le_refl _)⟩

/-- With `LOCK_TRY_ONCE` and one thread at a time in the window. -/
structure Single (s : State) : Prop where
  lockType : s.lockType = .tryOnce
  range : ∀ b, 0 ≤ (s.bo b).lockCnt ∧ (s.bo b).lockCnt ≤ 1
  low : ∀ i b ok, s.window i = some (b, ok) → (s.bo b).lockCnt = 0
  alone : ∀ i j b ok ok', s.window i = some (b, ok) → s.window j = some (b, ok') → i = j

theorem Single.tight (h : Single s) : Tight s :=
  ⟨fun b => (h.range b).1, .inr ⟨h.lockType, fun b => (h.range b).2, h.low⟩⟩

/-- Who is in the window after a data step was there before, or has just come in. -/
theorem Effect.entered (h : Effect me op s p s' p') (hw : s.window me = p.window) {i : ℕ}
    {ok : Bool} (hi : s'.window i = some (b, ok)) : (∃ ok', s.window i = some (b, ok')) ∨
      i = me ∧ op = .map (some b) ∧ p = .calling (.map (some b)) ∧
      s' = s.setWindow me (some (b, false)) ∧
        (s.lockType = .tryAlways ∨ (s.bo b).lockCnt = 0) := by
  rw [h.window hw] at hi
  by_cases e : i = me
  · subst e
    rw [Function.update_self] at hi
    cases h with
    | enter hb hl =>
      obtain ⟨rfl, -⟩ : _ = b ∧ false = ok := by simpa [Phase.window] using hi
      exact .inr ⟨rfl, rfl, rfl, rfl, hl⟩
    | locked =>
      obtain ⟨rfl, -⟩ : _ = b ∧ true = ok := by simpa [Phase.window] using hi
      exact .inl ⟨false, hw⟩
    | lockFailed =>
      obtain ⟨rfl, -⟩ : _ = b ∧ false = ok := by simpa [Phase.window] using hi
      exact .inl ⟨false, hw⟩
    | _ => simp [Phase.window] at hi
  · rw [Function.update_of_ne e] at hi
    exact .inl ⟨ok, hi⟩

theorem Single.act (hs : Single s) (h : Effect me op s p s' p') (hw : s.window me = p.window)
    (hone : ∀ b, op = .map (some b) → p = .calling (.map (some b)) → (s.bo b).lockCnt = 0 →
      ∀ i ok, s.window i ≠ some (b, ok)) : Single s' := by
  have hin (c : Bo) (hp : p = .inside c (some true)) : s.window me = some (c, true) := by
    rw [hw, hp]
    rfl
  refine ⟨by rw [h.lockType, hs.lockType], ?_, ?_, ?_⟩
  · intro c
    have hr := hs.range c
    obtain ⟨h0, hle | ⟨hp, -, hinc⟩⟩ := h.lockCnt hs.tight c
    · exact ⟨h0, by omega⟩
    · have := hs.low me c true (hin c hp)
      exact ⟨h0, by omega⟩
  · intro i c ok hi
    obtain ⟨h0, hle | ⟨hp, hp', hinc⟩⟩ := h.lockCnt hs.tight c
    · rcases h.entered hw hi with ⟨ok', hi'⟩ | ⟨-, -, -, rfl, hl⟩
      · have := hs.low i c ok' hi'
        omega
      · rcases hl with hl | hl
        · simp [hs.lockType] at hl
        · exact hl
    · -- the thread that leaves was the only one there
      rcases h.entered hw hi with ⟨ok', hi'⟩ | ⟨-, -, hp'', -⟩
      · obtain rfl := hs.alone i me c ok' true hi' (hin c hp)
        rw [h.window hw, hp', Function.update_self] at hi
        simp [Phase.window] at hi
      · simp [hp] at hp''
  · intro i j c ok ok' hi hj
    rcases h.entered hw hi with ⟨_, hi'⟩ | ⟨hi', hop, hp, -, hl⟩
    · rcases h.entered hw hj with ⟨_, hj'⟩ | ⟨hj', hop, hp, -, hl⟩
      · exact hs.alone i j c _ _ hi' hj'
      · have hl' := hl.resolve_left (by simp [hs.lockType])
        exact absurd hi' (hone c hop hp hl' i _)
    · have hl' := hl.resolve_left (by simp [hs.lockType])
      rcases h.entered hw hj with ⟨_, hj'⟩ | ⟨hj', -⟩
      · exact absurd hj' (hone c hop hp hl' j _)
      · rw [hi', hj']

theorem Single.flags_le (hs : Single s) (b : Bo) :
    (s.bo b).lockCnt + (∑ t : Fin n, flag (s.window t) b : ℕ) ≤ 1 := by
  by_cases hnone : ∀ (t : Fin n) ok, s.window t ≠ some (b, ok)
  · rw [flags_eq_zero hnone]
    have := (hs.range b).2
    omega
  · push Not at hnone
    obtain ⟨t, ok, ht⟩ := hnone
    have h0 := hs.low t b ok ht
    have hsum : ∑ u : Fin n, flag (s.window u) b = flag (s.window t) b := by
      apply Finset.sum_eq_single t
      · intro u _ hne
        apply if_neg
        intro hu
        exact hne (Fin.ext (hs.alone u t b true ok hu ht))
      · intro hout
        exact absurd (Finset.mem_univ t) hout
    have hflag : flag (s.window t) b ≤ 1 := by
      unfold flag
      split_ifs
      · exact Nat.le_refl 1
      · exact Nat.zero_le 1
    rw [hsum, h0]
    omega

variable {backend : Backend} {held : Fin n → Bo → ℕ} {w : Crew n}
  {acts : List (Action (Fin n) Answers MapOp)}
  {log : List (Entry (Crew n) (Action (Fin n) Answers MapOp) Unit)}

/-- With `LOCK_TRY_ONCE`, where no thread finds `lock_cnt` zero while another one is in the window,
the backend lock is held at most once, and what is freed is not locked. -/
theorem lock_once (hk : backend.boLock = true) (hu : backend.boUnlock = true)
    (hl : s.lockType = .tryOnce) (h0 : Unmapped s held)
    (hp : Permitted (Crew.step backend) (fun w a => w.owns a ∧ w.alone a) acts (.start s held))
    (hr : run (Crew.step backend) acts (.start s held) = some (log, w)) (b : Bo) :
    ((w.config.data.bo b).lockCnt = 0 ∨ (w.config.data.bo b).lockCnt = 1) ∧
    w.config.data.unlocks b ≤ w.config.data.locks b ∧
    w.config.data.locks b ≤ w.config.data.unlocks b + 1 ∧
    (b ∉ w.config.data.boList → w.config.data.locks b = w.config.data.unlocks b) := by
  have hstart : Single s := by
    refine ⟨hl, fun b => ?_, fun b _ _ _ => (h0.counts _).1, fun i j b _ _ hi => ?_⟩
    · rw [(h0.counts b).1]
      omega
    · simp [h0.window i] at hi
  obtain ⟨φ, hfit, hsingle, hbal, hrel⟩ := run_safe (fun _ w => ∃ φ, Fit backend w φ ∧
      Single w.config.data ∧ Balanced n w.config.data ∧ Released w.config.data)
    ⟨_, h0.fit, hstart, h0.balanced, fun b _ => (h0.counts b).1⟩ (by
      rintro _ w a r w' ⟨φ, hfit, hsingle, hbal, hrel⟩ ⟨ho, hone⟩ hs
      obtain ⟨ψ, hfit', hcase⟩ := hfit.step hk hu hsingle.tight ho hs
      refine ⟨ψ, hfit', ?_⟩
      rcases hcase with hd | ⟨t, op, _, _, _, _, rfl, hthread, he⟩
      · rw [hd]
        exact ⟨hsingle, hbal, hrel⟩
      · have hw := hfit.sound.window t
        refine ⟨hsingle.act he hw ?_, hbal.act he hw hsingle.tight, hrel.act he⟩
        rintro b rfl hp hz i ok hi
        have hlt : i < n := by
          by_contra hge
          simp [hfit.sound.outside i (Nat.not_lt.mp hge)] at hi
        have hnone : w.config.data.window t = none := by
          rw [hw, hp]
          rfl
        simp only [Crew.alone, hthread, hnone, hz] at hone
        have hout : ∀ u : Fin n, (w.config.data.window u).map Prod.fst ≠ some b := by
          simpa using hone
        exact hout ⟨i, hlt⟩ (by simp [hi])) hp hr
  have heq := hbal b
  have hle := hsingle.flags_le (n := n) b
  have hrange := hsingle.range b
  refine ⟨by omega, by omega, by omega, fun hb => ?_⟩
  rw [flags_eq_zero (hfit.sound.window_ne hb), hrel b hb] at heq
  omega

/-- One thread maps and unmaps after the other. -/
theorem lock_once_in_turn : ∃ log w,
    run (Crew.step .plain) (entering 0 ++ leaving 0 true ++ unmapping 0 ++ entering 1 ++
      leaving 1 true ++ dropping 1 ++ dropping 0) (.start (mappable .tryOnce) fun _ b =>
        if b = 0 then 1 else 0) = some (log, w) ∧ w.config.data.frees = [0] ∧
    ∀ b, ((w.config.data.bo b).lockCnt = 0 ∨ (w.config.data.bo b).lockCnt = 1) ∧
    w.config.data.unlocks b ≤ w.config.data.locks b ∧
    w.config.data.locks b ≤ w.config.data.unlocks b + 1 ∧
    (b ∉ w.config.data.boList → w.config.data.locks b = w.config.data.unlocks b) := by
  have hrun : ((run (Crew.step .plain) (entering 0 ++ leaving 0 true ++ unmapping 0 ++ entering 1 ++
      leaving 1 true ++ dropping 1 ++ dropping 0) (.start (mappable .tryOnce) fun _ b =>
        if b = 0 then 1 else 0)).map fun r => r.2.config.data.frees) = some [0] := by
    decide +kernel
  obtain ⟨⟨log, w⟩, hr, hw⟩ := Option.map_eq_some_iff.mp hrun
  exact ⟨log, w, hr, hw, lock_once rfl rfl rfl (mappable_unmapped _) (by decide +kernel) hr⟩

/-- Both threads find `lock_cnt` zero and lock. -/
theorem lock_once_overlap :
    ¬∀ (backend : Backend) (n : ℕ) (s : State) (held : Fin n → Bo → ℕ)
      (acts : List (Action (Fin n) Answers MapOp))
      (log : List (Entry (Crew n) (Action (Fin n) Answers MapOp) Unit)) (w : Crew n),
      backend.boLock = true → backend.boUnlock = true → s.lockType = .tryOnce → Unmapped s held →
      Permitted (Crew.step backend) (fun w a => w.owns a) acts (.start s held) →
      run (Crew.step backend) acts (.start s held) = some (log, w) → ∀ b,
      ((w.config.data.bo b).lockCnt = 0 ∨ (w.config.data.bo b).lockCnt = 1) ∧
      w.config.data.unlocks b ≤ w.config.data.locks b ∧
      w.config.data.locks b ≤ w.config.data.unlocks b + 1 ∧
      (b ∉ w.config.data.boList → w.config.data.locks b = w.config.data.unlocks b) := by
  intro hall
  have hrun : ((run (Crew.step .plain) (entering 0 ++ entering 1 ++ leaving 0 true ++
      leaving 1 true) (.start (mappable .tryOnce) fun _ b => if b = 0 then 1 else 0)).map
        fun r => (r.2.config.data.bo 0).lockCnt) = some 2 := by decide +kernel
  obtain ⟨⟨log, w⟩, hr, hw⟩ := Option.map_eq_some_iff.mp hrun
  have h := (hall .plain 2 (mappable .tryOnce) (fun _ b => if b = 0 then 1 else 0) _ log w
    rfl rfl rfl
    (mappable_unmapped _) (by decide +kernel) hr 0).1
  simp only at hw
  omega

end Once

end Tbm.Bufmgr
