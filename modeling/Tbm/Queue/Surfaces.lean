import Tbm.Queue.Reachable

/-! Surfaces and their nodes: a surface the allocator gives out gets a node of its own, so that a
surface names at most one attached node. -/
namespace Tbm.Queue

namespace SurfaceQueue

variable (q : SurfaceQueue)

/-- The surface that a call attaches. -/
def attaches (c : Op × AllocResult) : Option Surface :=
  match c.1 with
  | .dequeue | .canDequeue _ =>
    if q.queueIsEmpty .free ∧ q.queueSize ≠ q.numAttached ∧ c.2.node = true then c.2.surface
    else none
  | _ => none

/-- The allocator gives out no surface that is still attached. -/
def Fresh (c : Op × AllocResult) : Prop :=
  ∀ s ∈ q.attaches c, ∀ n ∈ q.attached, (q.node n).surface ≠ s

instance (c : Op × AllocResult) : Decidable (q.Fresh c) :=
  inferInstanceAs (Decidable (∀ s ∈ q.attaches c, _))

/-- The size is not lowered without a flush. -/
def KeepsSize : Op → Prop
  | .setSize n flush => flush = false → 0 < n → q.queueSize ≤ n
  | _ => True

instance : DecidablePred q.KeepsSize
  | .setSize _ _ => inferInstanceAs (Decidable (_ → _ → _))
  | .dequeue | .enqueue _ | .acquire | .release _ | .canDequeue _ | .canAcquire _
  | .reset _ _ _ | .flush | .setAllocCb _ _ | .destroy => isTrue trivial

end SurfaceQueue

namespace View

variable (v : View) (s : Surface)

def surf (n : ℕ) : Surface := (v.node n).surface

/-- No surface is attached twice. -/
def Distinct : Prop := ∀ n ∈ v.list, ∀ k ∈ v.list, v.surf n = v.surf k → n = k

theorem addNode_list : (v.addNode s).list = v.list ++ [v.settings.nodes] := rfl

theorem addNode_free (hf : v.on .free = []) : (v.addNode s).on .free = [v.settings.nodes] := by
  unfold View.on at hf
  simp [View.addNode, View.on, Lists.push, Lists.attach, hf]

theorem addNode_on {w : Fifo} (hw : w ≠ .free) : (v.addNode s).on w = v.on w := by
  simp [View.addNode, View.on, Lists.push, Lists.attach, hw]

theorem addNode_surf_new : (v.addNode s).surf v.settings.nodes = s := by
  simp [View.surf, View.addNode]

theorem addNode_type_new : ((v.addNode s).node v.settings.nodes).type = .none := by
  simp [View.addNode]

theorem addNode_fits (hroom : v.list.length < v.settings.queueSize) :
    (v.addNode s).list.length ≤ (v.addNode s).settings.queueSize := by
  have hlen : (v.addNode s).list.length = v.list.length + 1 := by
    rw [v.addNode_list]
    simp
  have hsize : (v.addNode s).settings.queueSize = v.settings.queueSize := rfl
  rw [hlen, hsize]
  omega

end View

namespace Matches

variable {kind : Kind} {q : SurfaceQueue} {v : View} {k : ℕ}

theorem ne_nodes (hq : Matches kind q v) (hk : k ∈ v.list) : k ≠ v.settings.nodes := by
  have hnodes : q.nodes = v.settings.nodes := congrArg SurfaceQueue.Settings.nodes hq.settings
  have hb := hq.bound k hk
  omega

theorem addNode_node (hq : Matches kind q v) (s : Surface) (hk : k ∈ v.list) :
    (v.addNode s).node k = v.node k := by
  simp [View.addNode, hq.ne_nodes hk]

theorem addNode_surf (hq : Matches kind q v) (s : Surface) (hk : k ∈ v.list) :
    (v.addNode s).surf k = v.surf k := by
  unfold View.surf
  rw [hq.addNode_node s hk]

theorem addNode_distinct (hq : Matches kind q v) (hd : v.Distinct) {s : Surface}
    (hnew : ∀ n ∈ v.list, v.surf n ≠ s) : (v.addNode s).Distinct := by
  intro k hk j hj he
  rw [v.addNode_list, List.mem_append, List.mem_singleton] at hk hj
  rcases hk with hk | rfl
  · rcases hj with hj | rfl
    · rw [hq.addNode_surf s hk, hq.addNode_surf s hj] at he
      exact hd k hk j hj he
    · rw [hq.addNode_surf s hk, v.addNode_surf_new] at he
      exact absurd he (hnew k hk)
  · rcases hj with hj | rfl
    · rw [hq.addNode_surf s hj, v.addNode_surf_new] at he
      exact absurd he.symm (hnew j hj)
    · rfl

theorem fresh_surface (hq : Matches kind q v) {c : Op × AllocResult}
    (hc : c.1 = .dequeue ∨ ∃ w, c.1 = .canDequeue w) (hfresh : q.Fresh c) {s : Surface}
    (hf : v.on .free = []) (hroom : v.settings.queueSize ≠ v.list.length)
    (hx : c.2 = ⟨some s, true⟩) : ∀ n ∈ v.list, v.surf n ≠ s := by
  intro n hn
  have hcond : q.queueIsEmpty .free ∧ q.queueSize ≠ q.numAttached ∧ c.2.node = true :=
    ⟨by simp [hq.isEmpty_free, hf], by rwa [hq.queueSize, hq.numAttached], by rw [hx]⟩
  have hs : s ∈ q.attaches c := by
    unfold SurfaceQueue.attaches
    rcases hc with h | ⟨w, h⟩ <;> rw [h] <;> simp only <;> rw [if_pos hcond, hx] <;> rfl
  have hne := hfresh s hs n (by rwa [hq.attached_eq])
  rw [hq.node n hn] at hne
  exact hne

/-- Where each surface names one node, a search finds the node on `list` of a surface that is
on neither queue. -/
theorem lookup_of_distinct (hq : Matches kind q v) (hd : v.Distinct) {n : ℕ} (hn : n ∈ v.list)
    (hf : n ∉ v.on .free) (hdirty : n ∉ v.on .dirty) :
    v.lookup (v.surf n) = some (n, .nodeList) := by
  have honly : ∀ k ∈ v.list, (v.node k).surface = v.surf n → k = n := fun k hk he => hd k hk n hn he
  have hskip : ∀ {w}, n ∉ v.on w →
      (v.lists.on w).find? (fun k => decide ((v.node k).surface = v.surf n)) = none := by
    intro w hw
    refine List.find?_eq_none.mpr fun k hk he => hw ?_
    rw [← honly k (hq.on_sub hk) (of_decide_eq_true he)]
    exact hk
  unfold View.lookup Lists.lookup
  rw [hskip hf, hskip hdirty]
  cases hl : v.lists.list.find? (fun k => decide ((v.node k).surface = v.surf n)) with
  | none => exact absurd (decide_eq_true rfl) (List.find?_eq_none.mp hl n hn)
  | some k =>
    have hs := List.find?_some (p := fun k => decide ((v.node k).surface = v.surf n)) hl
    rw [honly k (List.mem_of_find?_eq_some hl) (of_decide_eq_true hs)]
    rfl

end Matches

/-- Only the node `n` changed: its data, or its place on the item lists. -/
structure Moves (v v' : View) (n : ℕ) : Prop where
  list : v'.list = v.list
  settings : v'.settings = v.settings
  node : ∀ k, k ≠ n → v'.node k = v.node k
  same : v'.surf n = v.surf n
  on : ∀ k, k ≠ n → ∀ w, k ∈ v'.on w ↔ k ∈ v.on w

namespace Moves

variable {v v' v'' : View} {n : ℕ}

theorem trans (h : Moves v v' n) (h' : Moves v' v'' n) : Moves v v'' n where
  list := h'.list.trans h.list
  settings := h'.settings.trans h.settings
  node := fun k hk => (h'.node k hk).trans (h.node k hk)
  same := h'.same.trans h.same
  on := fun k hk w => (h'.on k hk w).trans (h.on k hk w)

theorem push (v : View) (w : Fifo) (n : ℕ) : Moves v (v.push w n) n where
  list := rfl
  settings := rfl
  node := fun _ _ => rfl
  same := rfl
  on := by
    intro k hk u
    unfold View.on View.push
    simp [Lists.mem_push, hk]

theorem pop (v : View) (w : Fifo) (n : ℕ) : Moves v (v.pop w n) n where
  list := rfl
  settings := rfl
  node := fun _ _ => rfl
  same := rfl
  on := by
    intro k hk u
    by_cases e : u = w
    · subst e
      simp [View.pop, View.on, Lists.pop, List.mem_erase_of_ne hk]
    · simp [View.pop, View.on, Lists.pop, e]

private theorem setNode (v : View) (n : ℕ) {d : Node} (hd : d.surface = v.surf n) :
    Moves v (v.setNode n d) n where
  list := rfl
  settings := rfl
  node := fun k hk => by simp [View.setNode, hk]
  same := by simp [View.surf, View.setNode, hd]
  on := fun _ _ _ => Iff.rfl

theorem setType (v : View) (n : ℕ) (t : NodeType) : Moves v (v.setType n t) n := setNode v n rfl

theorem setPrivFlags (v : View) (n k : ℕ) : Moves v (v.setPrivFlags n k) n := setNode v n rfl

theorem surf_eq (h : Moves v v' n) (k : ℕ) : v'.surf k = v.surf k := by
  by_cases e : k = n
  · rw [e, h.same]
  · unfold View.surf
    rw [h.node k e]

theorem distinct (h : Moves v v' n) (hd : v.Distinct) : v'.Distinct := by
  intro k hk j hj he
  rw [h.list] at hk hj
  rw [h.surf_eq, h.surf_eq] at he
  exact hd k hk j hj he

end Moves

end Tbm.Queue
