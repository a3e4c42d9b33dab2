import Tbm.Queue.Surfaces
import Mathlib.Data.List.TakeWhile

/-! The sequence queue delivers in the order of the dequeues: what reaches `dirty_queue` is the
longest front of the dequeued surfaces whose members have all been enqueued. -/
namespace Tbm.Queue

open Runs

namespace SurfaceQueue

variable (q : SurfaceQueue)

/-- The surface is dequeued and not enqueued yet. -/
def IsDequeued (s : Surface) : Prop :=
  ∃ n ∈ q.nodesOn .sequence .dequeue, (q.node n).surface = s ∧ (q.node n).privFlags ≠ 0

/-- The surface is in the hands of the consumer. -/
def IsAcquired (s : Surface) : Prop :=
  ∃ n ∈ q.attached, (q.node n).surface = s ∧ (q.node n).type = .acquire

instance (s : Surface) : Decidable (q.IsDequeued s) := inferInstanceAs (Decidable (∃ n ∈ _, _))

instance (s : Surface) : Decidable (q.IsAcquired s) := inferInstanceAs (Decidable (∃ n ∈ _, _))

/-- The calls a well-behaved producer and consumer make. -/
def Behaved : Op → Prop
  | .enqueue (some s) => q.IsDequeued s
  | .release (some s) => q.IsAcquired s
  | _ => True

instance : DecidablePred q.Behaved
  | .enqueue (some s) => inferInstanceAs (Decidable (q.IsDequeued s))
  | .release (some s) => inferInstanceAs (Decidable (q.IsAcquired s))
  | .enqueue none | .release none | .dequeue | .acquire | .canDequeue _ | .canAcquire _
  | .reset _ _ _ | .flush | .setSize _ _ | .setAllocCb _ _ | .destroy => isTrue trivial

end SurfaceQueue

/-- The calls of a sequence run. `Fresh` is what is asked of the allocator. -/
def InSequence (q : SurfaceQueue) (c : Op × AllocResult) : Prop :=
  q.valid = true → q.Behaved c.1 ∧ q.KeepsSize c.1 ∧ q.Fresh c

instance (q : SurfaceQueue) (c : Op × AllocResult) : Decidable (InSequence q c) :=
  inferInstanceAs (Decidable (_ → _))

/-- The surface a successful dequeue handed out. -/
def LogEntry.dequeued (e : LogEntry) : Option Surface :=
  match e.call.1, e.reply with
  | .dequeue, .surface .none s => s
  | _, _ => none

/-- The surfaces the call put on `dirty_queue`. -/
def LogEntry.moved (e : LogEntry) : List Surface :=
  ((e.after.nodesOn .sequence .dirty).filter (· ∉ e.before.nodesOn .sequence .dirty)).map
    fun n => (e.after.node n).surface

/-- An enqueue of `s` marks the dequeue of `s` as answered. -/
def answer (s : Surface) (r : Surface × Bool) : Surface × Bool := (r.1, r.2 || decide (r.1 = s))

def LogEntry.request (rs : List (Surface × Bool)) (e : LogEntry) : List (Surface × Bool) :=
  match e.call.1 with
  | .enqueue (some s) => rs.map (answer s)
  | _ => rs ++ e.dequeued.toList.map (·, false)

/-- The dequeue events since the last clearing call, each with whether its surface has been
enqueued after it. -/
def Log.requests (log : Log) : List (Surface × Bool) := log.sinceClear.foldl LogEntry.request []

def Log.dequeued (log : Log) : List Surface := log.sinceClear.filterMap LogEntry.dequeued

def Log.moved (log : Log) : List Surface := log.sinceClear.flatMap LogEntry.moved

theorem Log.sinceClear_concat (log : Log) (e : LogEntry) :
    Log.sinceClear (log ++ [e]) = if e.Cleared then [] else log.sinceClear ++ [e] := by
  rw [sinceClear, List.foldl_append]
  rfl

/-- The node `n` moves from `free_queue` to the back of `dequeue_list`. -/
def View.handOut (v : View) (n : ℕ) : View :=
  (((v.pop .free n).push .dequeue n).setPrivFlags n 1).setType n .dequeue

/-- The state of a sequence run on a live queue. -/
structure InOrder (log : Log) (v : View) : Prop where
  distinct : v.Distinct
  fits : v.list.length ≤ v.settings.queueSize
  acquired : ∀ n ∈ v.list, (v.node n).type = .acquire ↔ ∀ w, n ∉ v.on w
  front : ∀ n ns, v.on .dequeue = n :: ns → (v.node n).privFlags ≠ 0
  moved : log.moved = log.acquired ++ (v.on .dirty).map v.surf
  requests : log.requests = log.moved.map (·, true) ++
    (v.on .dequeue).map fun n => (v.surf n, decide ((v.node n).privFlags = 0))

namespace Log

variable {log : Log} {e : LogEntry}

private theorem moved_concat (he : ¬e.Cleared) : Log.moved (log ++ [e]) = log.moved ++ e.moved := by
  unfold moved
  rw [sinceClear_concat, if_neg he, List.flatMap_append, List.flatMap_singleton]

private theorem acquired_concat (he : ¬e.Cleared) :
    Log.acquired (log ++ [e]) = log.acquired ++ e.acquired.toList := by
  unfold acquired
  rw [filterMap_concat, if_neg he]

private theorem requests_concat (he : ¬e.Cleared) :
    Log.requests (log ++ [e]) = e.request log.requests := by
  unfold requests
  rw [sinceClear_concat, if_neg he, List.foldl_append]
  rfl

private theorem requests_fst (log : Log) : log.requests.map Prod.fst = log.dequeued := by
  have hfold : ∀ (es : Log) (rs : List (Surface × Bool)),
      (es.foldl LogEntry.request rs).map Prod.fst =
        rs.map Prod.fst ++ es.filterMap LogEntry.dequeued := by
    intro es
    induction es with
    | nil => simp
    | cons e es ih =>
      intro rs
      have hone : (LogEntry.request rs e).map Prod.fst = rs.map Prod.fst ++ e.dequeued.toList := by
        unfold LogEntry.request
        split
        · rename_i s hs
          have hnone : e.dequeued = none := by simp [LogEntry.dequeued, hs]
          rw [hnone, List.map_map]
          simp [answer, Function.comp_def]
        · cases e.dequeued <;> simp
      rw [List.foldl_cons, ih, hone]
      cases hd : e.dequeued <;> simp [hd]
  exact hfold log.sinceClear []

end Log

namespace InOrder

variable {log : Log} {q q' q₀ : SurfaceQueue} {v v' : View} {c : Op × AllocResult} {r : Reply}

private theorem moved_eq (hb : q.nodesOn .sequence .dirty = v.on .dirty)
    (hq' : Matches .sequence q' v') :
    LogEntry.moved ⟨q, c, r, q'⟩ = ((v'.on .dirty).filter (· ∉ v.on .dirty)).map v'.surf := by
  unfold LogEntry.moved
  simp only [hb, hq'.nodesOn_eq]
  refine List.map_congr_left fun n hn => ?_
  rw [hq'.node n (hq'.on_sub (List.mem_of_mem_filter hn))]
  rfl

private theorem filter_self (ns : List ℕ) : ns.filter (· ∉ ns) = [] := by
  simp

private theorem same (h : InOrder log v) (hq : Matches .sequence q₀ v)
    (hb : q.nodesOn .sequence .dirty = v.on .dirty) (hq' : Matches .sequence q' v')
    (he : ¬LogEntry.Cleared ⟨q, c, r, q'⟩)
    (hdirty : v'.on .dirty = v.on .dirty) (hdeq : v'.on .dequeue = v.on .dequeue)
    (hsurf : ∀ n ∈ v.list, v'.surf n = v.surf n)
    (hpriv : ∀ n ∈ v.list, (v'.node n).privFlags = (v.node n).privFlags)
    (hacq : LogEntry.acquired ⟨q, c, r, q'⟩ = none)
    (hreq : ∀ rs, LogEntry.request rs ⟨q, c, r, q'⟩ = rs)
    (hdis : v'.Distinct) (hfit : v'.list.length ≤ v'.settings.queueSize)
    (hout : ∀ n ∈ v'.list, (v'.node n).type = .acquire ↔ ∀ w, n ∉ v'.on w) :
    InOrder (log ++ [⟨q, c, r, q'⟩]) v' := by
  have hmoved : Log.moved (log ++ [⟨q, c, r, q'⟩]) = log.moved := by
    rw [Log.moved_concat he, moved_eq hb hq', hdirty, filter_self, List.map_nil, List.append_nil]
  refine ⟨hdis, hfit, hout, fun n ns hn => ?_, ?_, ?_⟩
  · rw [hdeq] at hn
    rw [hpriv n (hq.on_sub (by simp [hn] : n ∈ v.on .dequeue))]
    exact h.front n ns hn
  · rw [hmoved, Log.acquired_concat he, hacq, Option.toList_none, List.append_nil, hdirty, h.moved]
    exact congrArg _ (List.map_congr_left fun n hn => (hsurf n (hq.on_sub hn)).symm)
  · rw [hmoved, Log.requests_concat he, hreq, h.requests, hdeq]
    refine congrArg _ (List.map_congr_left fun n hn => ?_)
    rw [hsurf n (hq.on_sub hn), hpriv n (hq.on_sub hn)]

private theorem clear (he : LogEntry.Cleared ⟨q, c, r, q'⟩) (hl : v'.lists = .empty)
    (hsize : 0 ≤ v'.settings.queueSize) : InOrder (log ++ [⟨q, c, r, q'⟩]) v' := by
  have hlist : v'.list = [] := by rw [View.list, hl, Lists.empty]
  have hon : ∀ w, v'.on w = [] := fun w => by rw [View.on, hl, Lists.empty]
  have hmoved : Log.moved (log ++ [⟨q, c, r, q'⟩]) = [] := by
    unfold Log.moved
    rw [Log.sinceClear_concat, if_pos he, List.flatMap_nil]
  have hacq : Log.acquired (log ++ [⟨q, c, r, q'⟩]) = [] := by
    unfold Log.acquired
    rw [Log.filterMap_concat, if_pos he]
  have hreq : Log.requests (log ++ [⟨q, c, r, q'⟩]) = [] := by
    unfold Log.requests
    rw [Log.sinceClear_concat, if_pos he, List.foldl_nil]
  constructor
  · simp [View.Distinct, hlist]
  · rw [hlist]
    exact hsize
  · simp [hlist]
  · simp [hon]
  · rw [hmoved, hacq, hon]
    rfl
  · rw [hmoved, hreq, hon]
    rfl

/-- The nodes that are handed out after a move. -/
private theorem out_of_moves {n : ℕ} (h : InOrder log v) (hm : Moves v v' n)
    (hn : (v'.node n).type = .acquire ↔ ∀ w, n ∉ v'.on w) :
    ∀ k ∈ v'.list, (v'.node k).type = .acquire ↔ ∀ w, k ∉ v'.on w := by
  intro k hk
  by_cases e : k = n
  · rw [e]
    exact hn
  · rw [hm.list] at hk
    rw [hm.node k e, h.acquired k hk]
    exact forall_congr' fun w => not_congr (hm.on k e w).symm

private theorem acquire (h : InOrder log v) (hq : Matches .sequence q v) {x : AllocResult} {n : ℕ}
    {ns : List ℕ} (hd : v.on .dirty = n :: ns)
    (hq' : Matches .sequence q' ((v.pop .dirty n).setType n .acquire)) :
    InOrder (log ++ [⟨q, (.acquire, x), .surface .none (some (v.surf n)), q'⟩])
      ((v.pop .dirty n).setType n .acquire) := by
  have he : ¬LogEntry.Cleared ⟨q, (.acquire, x), .surface .none (some (v.surf n)), q'⟩ :=
    fun hc => hc.2
  have hm : n ∈ v.on .dirty := by simp [hd]
  have hmv : Moves v ((v.pop .dirty n).setType n .acquire) n :=
    (Moves.pop v _ n).trans (.setType _ n _)
  have hdirty : ((v.pop .dirty n).setType n .acquire).on .dirty = ns := by
    unfold View.on at hd
    simp [View.setType, View.setNode, View.pop, View.on, Lists.pop, hd]
  have hdeq : ((v.pop .dirty n).setType n .acquire).on .dequeue = v.on .dequeue := by
    simp [View.setType, View.setNode, View.pop, View.on, Lists.pop]
  have hpriv : ∀ k, (((v.pop .dirty n).setType n .acquire).node k).privFlags =
      (v.node k).privFlags := by
    intro k
    by_cases e : k = n <;> simp [View.setType, View.setNode, View.pop, e]
  have hmoved : Log.moved (log ++ [⟨q, (.acquire, x), .surface .none (some (v.surf n)), q'⟩]) =
      log.moved := by
    have hnil : ns.filter (· ∉ v.on .dirty) = [] :=
      List.filter_eq_nil_iff.mpr fun k hk => by simp [hd, hk]
    rw [Log.moved_concat he, moved_eq (hq.nodesOn_eq .dirty) hq', hdirty, hnil, List.map_nil,
      List.append_nil]
  refine ⟨hmv.distinct h.distinct, h.fits, h.out_of_moves hmv ?_, ?_, ?_, ?_⟩
  · have hout := (hq.toLayout.handedOut_pop hm).2
    have ht : (((v.pop .dirty n).setType n .acquire).node n).type = .acquire := by
      simp [View.setType, View.setNode]
    exact ⟨fun _ => hout, fun _ => ht⟩
  · intro k ks hk
    rw [hdeq] at hk
    rw [hpriv]
    exact h.front k ks hk
  · rw [hmoved, Log.acquired_concat he, hdirty, h.moved, hd]
    simp [LogEntry.acquired, hmv.surf_eq]
  · rw [hmoved, Log.requests_concat he, hdeq]
    simp only [LogEntry.request, LogEntry.dequeued, Option.toList_none, List.map_nil,
      List.append_nil, hmv.surf_eq, hpriv]
    exact h.requests

private theorem dequeue (h : InOrder log v) (hq : Matches .sequence q₀ v)
    (hb : q.nodesOn .sequence .dirty = v.on .dirty) {x : AllocResult} {n : ℕ} {ns : List ℕ}
    (hf : v.on .free = n :: ns) (hq' : Matches .sequence q' (v.handOut n)) :
    InOrder (log ++ [⟨q, (.dequeue, x), .surface .none (some (v.surf n)), q'⟩]) (v.handOut n) := by
  have he : ¬LogEntry.Cleared ⟨q, (.dequeue, x), .surface .none (some (v.surf n)), q'⟩ :=
    fun hc => hc.2
  have hm : n ∈ v.on .free := by simp [hf]
  have hmv : Moves v (v.handOut n) n :=
    (((Moves.pop v _ n).trans (.push _ _ n)).trans (.setPrivFlags _ n _)).trans (.setType _ n _)
  have hdirty : (v.handOut n).on .dirty = v.on .dirty := by
    simp [View.handOut, View.setType, View.setPrivFlags, View.setNode, View.pop, View.push,
      View.on, Lists.pop, Lists.push]
  have hdeq : (v.handOut n).on .dequeue = v.on .dequeue ++ [n] := by
    simp [View.handOut, View.setType, View.setPrivFlags, View.setNode, View.pop, View.push,
      View.on, Lists.pop, Lists.push]
  have hnd : n ∉ v.on .dequeue := fun hd => by simpa using hq.apart hm hd
  have hpriv : ∀ k ∈ v.on .dequeue, ((v.handOut n).node k).privFlags = (v.node k).privFlags := by
    intro k hk
    rw [hmv.node k fun e => hnd (e ▸ hk)]
  have hone : ((v.handOut n).node n).privFlags = 1 := by
    simp [View.handOut, View.setType, View.setPrivFlags, View.setNode]
  have hmoved : Log.moved (log ++ [⟨q, (.dequeue, x), .surface .none (some (v.surf n)), q'⟩]) =
      log.moved := by
    rw [Log.moved_concat he, moved_eq hb hq', hdirty, filter_self, List.map_nil, List.append_nil]
  refine ⟨hmv.distinct h.distinct, h.fits, h.out_of_moves hmv ?_, ?_, ?_, ?_⟩
  · have hin : n ∈ (v.handOut n).on .dequeue := by simp [hdeq]
    have ht : ((v.handOut n).node n).type ≠ .acquire := by
      simp [View.handOut, View.setType, View.setNode]
    exact ⟨fun hacq => absurd hacq ht, fun hout => absurd hin (hout .dequeue)⟩
  · intro k ks hk
    rw [hdeq] at hk
    cases hd : v.on .dequeue with
    | nil =>
      rw [hd, List.nil_append] at hk
      obtain ⟨rfl, -⟩ := List.cons.inj hk
      rw [hone]
      exact one_ne_zero
    | cons a as =>
      rw [hd, List.cons_append] at hk
      obtain ⟨rfl, -⟩ := List.cons.inj hk
      rw [hpriv a (by simp [hd])]
      exact h.front a as hd
  · rw [hmoved, Log.acquired_concat he, hdirty, h.moved]
    simp [LogEntry.acquired, hmv.surf_eq]
  · have hold : (v.on .dequeue).map
        (fun k => ((v.handOut n).surf k, decide (((v.handOut n).node k).privFlags = 0))) =
        (v.on .dequeue).map fun k => (v.surf k, decide ((v.node k).privFlags = 0)) :=
      List.map_congr_left fun k hk => by rw [hmv.surf_eq, hpriv k hk]
    rw [hmoved, Log.requests_concat he, hdeq, List.map_append, hold, List.map_singleton, hone,
      hmv.surf_eq, ← List.append_assoc, ← h.requests]
    rfl

/-- What the drain loop leaves, whether the enqueue then set the node type or not. -/
private structure Drained (v v' : View) (n : ℕ) : Prop where
  list : v'.list = v.list
  settings : v'.settings = v.settings
  free : v'.on .free = v.on .free
  dirty : v'.on .dirty = v.on .dirty ++
    (v.on .dequeue).takeWhile fun k => decide ((v'.node k).privFlags = 0)
  dequeue : v'.on .dequeue = (v.on .dequeue).dropWhile fun k => decide ((v'.node k).privFlags = 0)
  surf : ∀ k, v'.surf k = v.surf k
  priv : ∀ k, (v'.node k).privFlags = if k = n then 0 else (v.node k).privFlags
  type : ∀ k, (v'.node k).type = (v.node k).type ∨ (k = n ∧ (v'.node k).type = .enqueue)

private theorem drained_drain (v : View) (n : ℕ) : Drained v (v.drain n) n where
  list := rfl
  settings := rfl
  free := rfl
  dirty := rfl
  dequeue := rfl
  surf := (Moves.setPrivFlags v n 0).surf_eq
  priv := fun k => by
    by_cases e : k = n <;> simp [View.drain, View.setPrivFlags, View.setNode, e]
  type := fun k => .inl (by
    by_cases e : k = n <;> simp [View.drain, View.setPrivFlags, View.setNode, e])

private theorem drained_setType (v : View) (n : ℕ) :
    Drained v ((v.drain n).setType n .enqueue) n := by
  have h := drained_drain v n
  have hp : ∀ k, (((v.drain n).setType n .enqueue).node k).privFlags =
      ((v.drain n).node k).privFlags := by
    intro k
    by_cases e : k = n <;> simp [View.setType, View.setNode, e]
  constructor
  · exact h.list
  · exact h.settings
  · exact h.free
  · simp only [hp]
    exact h.dirty
  · simp only [hp]
    exact h.dequeue
  · intro k
    rw [(Moves.setType (v.drain n) n .enqueue).surf_eq, h.surf]
  · intro k
    rw [hp, h.priv]
  · intro k
    by_cases e : k = n
    · exact .inr ⟨e, by simp [View.setType, View.setNode, e]⟩
    · rw [(Moves.setType (v.drain n) n .enqueue).node k e]
      exact .inl ((h.type k).resolve_right fun hk => e hk.1)

private theorem Drained.on_iff {n : ℕ} (hd : Drained v v' n) (k : ℕ) :
    (∀ w, k ∉ v'.on w) ↔ ∀ w, k ∉ v.on w := by
  have hsplit := List.takeWhile_append_dropWhile
    (p := fun j => decide ((v'.node j).privFlags = 0)) (l := v.on .dequeue)
  have hmem : k ∈ v.on .dequeue ↔ k ∈ (v.on .dequeue).takeWhile
        (fun j => decide ((v'.node j).privFlags = 0)) ∨
      k ∈ (v.on .dequeue).dropWhile fun j => decide ((v'.node j).privFlags = 0) := by
    rw [← List.mem_append, hsplit]
  constructor
  · intro h w hw
    cases w with
    | free => exact h .free (hd.free ▸ hw)
    | dirty => exact h .dirty (hd.dirty ▸ List.mem_append_left _ hw)
    | dequeue =>
      rcases hmem.mp hw with ht | hk
      · exact h .dirty (hd.dirty ▸ List.mem_append_right _ ht)
      · exact h .dequeue (hd.dequeue ▸ hk)
  · intro h w hw
    cases w with
    | free => exact h .free (hd.free ▸ hw)
    | dirty =>
      rw [hd.dirty, List.mem_append] at hw
      rcases hw with hw | hw
      · exact h .dirty hw
      · exact h .dequeue (hmem.mpr (.inl hw))
    | dequeue =>
      rw [hd.dequeue] at hw
      exact h .dequeue (hmem.mpr (.inr hw))

/-- The node `n` of a dequeued surface is released by an enqueue, and with it the front of
`dequeue_list`. -/
private theorem drained (h : InOrder log v) (hq : Matches .sequence q v) {x : AllocResult} {n : ℕ}
    (hn : n ∈ v.on .dequeue) (hd : Drained v v' n) (hq' : Matches .sequence q' v') :
    InOrder (log ++ [⟨q, (.enqueue (some (v.surf n)), x), r, q'⟩]) v' := by
  have he : ¬LogEntry.Cleared ⟨q, (.enqueue (some (v.surf n)), x), r, q'⟩ := fun hc => hc.2
  let p : ℕ → Bool := fun k => decide ((v'.node k).privFlags = 0)
  have hmoved : Log.moved (log ++ [⟨q, (.enqueue (some (v.surf n)), x), r, q'⟩]) =
      log.moved ++ ((v.on .dequeue).takeWhile p).map v.surf := by
    have hnew : ((v.on .dequeue).takeWhile p).filter (· ∉ v.on .dirty) =
        (v.on .dequeue).takeWhile p := by
      refine List.filter_eq_self.mpr fun k hk => ?_
      have hk' : k ∈ v.on .dequeue := (List.takeWhile_sublist p).mem hk
      have hnot : k ∉ v.on .dirty := fun hc => by simpa using hq.apart hk' hc
      simpa using hnot
    rw [Log.moved_concat he, moved_eq (hq.nodesOn_eq .dirty) hq', hd.dirty, List.filter_append,
      filter_self, List.nil_append, hnew]
    exact congrArg _ (List.map_congr_left fun k _ => hd.surf k)
  have hsurf : v'.surf = v.surf := funext hd.surf
  constructor
  · intro k hk j hj hkj
    rw [hd.list] at hk hj
    rw [hsurf] at hkj
    exact h.distinct k hk j hj hkj
  · rw [hd.list, hd.settings]
    exact h.fits
  · intro k hk
    rw [hd.list] at hk
    rw [hd.on_iff, ← h.acquired k hk]
    rcases hd.type k with ht | ⟨rfl, ht⟩
    · rw [ht]
    · have hnot : (v.node k).type ≠ .acquire := fun hc => (h.acquired k hk).mp hc .dequeue hn
      simp [ht, hnot]
  · intro k ks hk
    rw [hd.dequeue] at hk
    have hhead := List.head?_dropWhile_not p (v.on .dequeue)
    rw [hk] at hhead
    exact of_decide_eq_false hhead
  · rw [hmoved, Log.acquired_concat he, hd.dirty, h.moved, hsurf]
    simp [LogEntry.acquired, p]
  · have hans : ((v.on .dequeue).map fun k => (v.surf k, decide ((v.node k).privFlags = 0))).map
        (answer (v.surf n)) = (v.on .dequeue).map fun k => (v.surf k, p k) := by
      rw [List.map_map]
      refine List.map_congr_left fun k hk => Prod.ext rfl ?_
      have hkn : v.surf k = v.surf n ↔ k = n :=
        ⟨h.distinct k (hq.on_sub hk) n (hq.on_sub hn), fun e => by rw [e]⟩
      by_cases e : k = n
      · simp [answer, p, hd.priv, e]
      · simp [answer, p, hd.priv, e, hkn]
    have htrue : ((v.on .dequeue).takeWhile p).map (fun k => (v.surf k, p k)) =
        (((v.on .dequeue).takeWhile p).map v.surf).map (·, true) := by
      rw [List.map_map]
      refine List.map_congr_left fun k hk => Prod.ext rfl ?_
      have hp : p k = true := List.mem_takeWhile_imp hk
      exact hp
    have hsplit : (v.on .dequeue).map (fun k => (v.surf k, p k)) =
        (((v.on .dequeue).takeWhile p).map v.surf).map (·, true) ++
          ((v.on .dequeue).dropWhile p).map fun k => (v.surf k, p k) := by
      rw [← htrue, ← List.map_append, List.takeWhile_append_dropWhile]
    have hdone : (log.moved.map (·, true)).map (answer (v.surf n)) = log.moved.map (·, true) := by
      simp [answer]
    have hreq : LogEntry.request log.requests ⟨q, (.enqueue (some (v.surf n)), x), r, q'⟩ =
        log.requests.map (answer (v.surf n)) := rfl
    rw [hmoved, Log.requests_concat he, hd.dequeue, hreq, h.requests, List.map_append, hdone, hans,
      hsplit, List.map_append, List.append_assoc, hsurf]

private theorem addNode (h : InOrder log v) (hq : Matches .sequence q v) {s : Surface}
    (hnew : ∀ n ∈ v.list, v.surf n ≠ s) (hroom : v.list.length < v.settings.queueSize)
    (hf : v.on .free = []) : InOrder log (v.addNode s) := by
  have hfree := v.addNode_free s hf
  have hdirty : (v.addNode s).on .dirty = v.on .dirty := v.addNode_on s (by simp)
  have hdeq : (v.addNode s).on .dequeue = v.on .dequeue := v.addNode_on s (by simp)
  constructor
  · exact hq.addNode_distinct h.distinct hnew
  · exact v.addNode_fits s hroom
  · intro k hk
    rw [v.addNode_list, List.mem_append, List.mem_singleton] at hk
    rcases hk with hk | rfl
    · have hon : ∀ w, k ∈ (v.addNode s).on w ↔ k ∈ v.on w := by
        intro w
        by_cases e : w = .free
        · rw [e, hfree, hf]
          simpa using hq.ne_nodes hk
        · rw [v.addNode_on s e]
      rw [hq.addNode_node s hk, h.acquired k hk]
      exact forall_congr' fun w => not_congr (hon w).symm
    · have hin : v.settings.nodes ∈ (v.addNode s).on .free := by simp [hfree]
      rw [v.addNode_type_new]
      exact ⟨nofun, fun hout => absurd hin (hout .free)⟩
  · intro k ks hk
    rw [hdeq] at hk
    rw [hq.addNode_node s (hq.on_sub (by simp [hk] : k ∈ v.on .dequeue))]
    exact h.front k ks hk
  · rw [hdirty, h.moved]
    exact congrArg _ (List.map_congr_left fun k hk => (hq.addNode_surf s (hq.on_sub hk)).symm)
  · rw [hdeq, h.requests]
    refine congrArg _ (List.map_congr_left fun k hk => ?_)
    rw [hq.addNode_surf s (hq.on_sub hk), hq.addNode_node s (hq.on_sub hk)]

private theorem grow (h : InOrder log v) (hq : Matches .sequence q v)
    (hc : c.1 = .dequeue ∨ ∃ w, c.1 = .canDequeue w) (hfresh : q.Fresh c) :
    InOrder log (v.grow c.2) := by
  unfold View.grow View.attach
  by_cases hf : v.on .free = []
  · rw [if_pos hf]
    by_cases hfull : v.settings.queueSize = v.list.length
    · rw [if_pos hfull]
      exact h
    · have hroom : v.list.length < v.settings.queueSize := by
        have hfit := h.fits
        omega
      have hnew := fun s => hq.fresh_surface hc hfresh (s := s) hf hfull
      rw [if_neg hfull]
      rcases hx : c.2 with ⟨_ | s, _ | _⟩
      · exact h
      · exact h
      · exact h
      · exact h.addNode hq (hnew s hx) hroom hf
  · rw [if_neg hf]
    exact h

/-- A call that changed no list of the run. -/
private theorem idle (h : InOrder log v) (hq : Matches .sequence q₀ v)
    (hb : q.nodesOn .sequence .dirty = v.on .dirty) (hq' : Matches .sequence q' v')
    (he : ¬LogEntry.Cleared ⟨q, c, r, q'⟩) (hacq : LogEntry.acquired ⟨q, c, r, q'⟩ = none)
    (hreq : ∀ rs, LogEntry.request rs ⟨q, c, r, q'⟩ = rs) (hl : v'.lists = v.lists)
    (hn : v'.node = v.node) (hs : v.settings.queueSize ≤ v'.settings.queueSize) :
    InOrder (log ++ [⟨q, c, r, q'⟩]) v' := by
  have hon : ∀ w, v'.on w = v.on w := fun w => by rw [View.on, hl, View.on]
  have hlist : v'.list = v.list := by rw [View.list, hl, View.list]
  have hsurf : ∀ n, v'.surf n = v.surf n := fun n => by rw [View.surf, hn, View.surf]
  refine h.same hq hb hq' he (hon _) (hon _) (fun n _ => hsurf n) (fun n _ => by rw [hn]) hacq hreq
    ?_ ?_ ?_
  · intro k hk j hj hkj
    rw [hlist] at hk hj
    rw [hsurf, hsurf] at hkj
    exact h.distinct k hk j hj hkj
  · rw [hlist]
    exact h.fits.trans hs
  · intro n hm
    rw [hlist] at hm
    rw [hn, h.acquired n hm]
    exact forall_congr' fun w => by rw [hon]

private theorem grow_dirty (v : View) (x : AllocResult) : (v.grow x).on .dirty = v.on .dirty := by
  unfold View.grow View.attach
  split_ifs
  · rfl
  · obtain ⟨_ | s, _ | _⟩ := x
    · rfl
    · rfl
    · rfl
    · exact v.addNode_on s (by simp)
  · rfl

private theorem enqueue_step (h : InOrder log v) (hq : Matches .sequence q v) {x : AllocResult}
    {s : Surface} (hs : q.IsDequeued s)
    (hq' : Matches .sequence q' (v.enqueue .sequence s).2) :
    InOrder (log ++ [⟨q, (.enqueue (some s), x), r, q'⟩]) (v.enqueue .sequence s).2 := by
  obtain ⟨n, hn, hsurf, -⟩ := hs
  rw [hq.nodesOn_eq] at hn
  have hmem := hq.on_sub hn
  rw [hq.node n hmem] at hsurf
  obtain rfl : v.surf n = s := hsurf
  have hf : n ∉ v.on .free := fun hf => by simpa using hq.apart hn hf
  have hd : n ∉ v.on .dirty := fun hd => by simpa using hq.apart hn hd
  have hl := hq.lookup_of_distinct h.distinct hmem hf hd
  have hcase : (v.enqueue .sequence (v.surf n)).2 = v.drain n ∨
      (v.enqueue .sequence (v.surf n)).2 = (v.drain n).setType n .enqueue := by
    unfold View.enqueue
    simp only [hl]
    split_ifs
    · exact .inl rfl
    · exact .inr rfl
  rcases hcase with he | he
  · rw [he] at hq' ⊢
    exact h.drained hq hn (drained_drain v n) hq'
  · rw [he] at hq' ⊢
    exact h.drained hq hn (drained_setType v n) hq'

private theorem release_step (h : InOrder log v) (hq : Matches .sequence q v) {x : AllocResult}
    {s : Surface} (hs : q.IsAcquired s) (hq' : Matches .sequence q' (v.release s).2) :
    InOrder (log ++ [⟨q, (.release (some s), x), r, q'⟩]) (v.release s).2 := by
  obtain ⟨n, hn, hsurf, htype⟩ := hs
  rw [hq.attached_eq] at hn
  rw [hq.node n hn] at hsurf htype
  obtain rfl : v.surf n = s := hsurf
  have hout := (h.acquired n hn).mp htype
  have hl := hq.lookup_of_distinct h.distinct hn (hout .free) (hout .dirty)
  have hfit : ¬v.settings.queueSize < v.list.length := not_lt.mpr h.fits
  have he : (v.release (v.surf n)).2 = (v.push .free n).setType n .release := by
    unfold View.release
    simp only [hl, if_neg hfit]
  rw [he] at hq' ⊢
  have hmv : Moves v ((v.push .free n).setType n .release) n :=
    (Moves.push v _ n).trans (.setType _ n _)
  have hpriv : ∀ k, (((v.push .free n).setType n .release).node k).privFlags =
      (v.node k).privFlags := by
    intro k
    by_cases e : k = n <;> simp [View.setType, View.setNode, View.push, e]
  refine h.same hq (hq.nodesOn_eq .dirty) hq' (fun hc => hc.2) ?_ ?_ (fun k _ => hmv.surf_eq k)
    (fun k _ => hpriv k) rfl (fun rs => List.append_nil rs)
    (hmv.distinct h.distinct) h.fits (h.out_of_moves hmv ?_)
  · simp [View.setType, View.setNode, View.push, View.on, Lists.push]
  · simp [View.setType, View.setNode, View.push, View.on, Lists.push]
  · have hin : n ∈ ((v.push .free n).setType n .release).on .free :=
      Lists.mem_push.mpr (.inr ⟨rfl, rfl⟩)
    have ht : (((v.push .free n).setType n .release).node n).type ≠ .acquire := by
      simp [View.setType, View.setNode]
    exact ⟨fun hacq => absurd hacq ht, fun ho => absurd hin (ho .free)⟩

private theorem dequeue_step (h : InOrder log v) (hq : Matches .sequence q v) {x : AllocResult}
    (hfresh : q.Fresh (.dequeue, x)) (hq' : Matches .sequence q' (v.dequeue .sequence x).2) :
    InOrder (log ++ [⟨q, (.dequeue, x),
      .surface (v.dequeue .sequence x).1.1 (v.dequeue .sequence x).1.2, q'⟩])
      (v.dequeue .sequence x).2 := by
  have hg := h.grow hq (.inl rfl) hfresh
  have hqg := (hq.grow (c := True) x).follows
  have hb : q.nodesOn .sequence .dirty = (v.grow x).on .dirty := by
    rw [hq.nodesOn_eq, grow_dirty]
  cases hf : (v.grow x).on .free with
  | nil =>
    have he : v.dequeue .sequence x = ((.invalidQueue, none), v.grow x) := by
      unfold View.dequeue
      simp only [hf]
    rw [he] at hq' ⊢
    exact hg.idle hqg hb hq' (fun hc => hc.2) rfl
      (fun rs => List.append_nil rs) rfl rfl le_rfl
  | cons n ns =>
    have he : v.dequeue .sequence x =
        ((.none, some ((v.grow x).surf n)), (v.grow x).handOut n) := by
      unfold View.dequeue
      simp [hf, View.handOut, View.surf, View.setPrivFlags, View.setNode, View.push, View.pop]
    rw [he] at hq' ⊢
    exact hg.dequeue hqg hb hf hq'

private theorem acquire_step (h : InOrder log v) (hq : Matches .sequence q v) {x : AllocResult}
    (hq' : Matches .sequence q' v.acquire.2) :
    InOrder (log ++ [⟨q, (.acquire, x), .surface v.acquire.1.1 v.acquire.1.2, q'⟩])
      v.acquire.2 := by
  cases hd : v.on .dirty with
  | nil =>
    have he : v.acquire = ((.invalidQueue, none), v) := by
      unfold View.acquire
      simp only [hd]
    rw [he] at hq' ⊢
    exact h.idle hq (hq.nodesOn_eq _) hq' (fun hc => hc.2) rfl
      (fun rs => List.append_nil rs) rfl rfl le_rfl
  | cons n ns =>
    have he : v.acquire = ((.none, some (v.surf n)), (v.pop .dirty n).setType n .acquire) := by
      unfold View.acquire
      simp only [hd]
      rfl
    rw [he] at hq' ⊢
    exact h.acquire hq hd hq'

private theorem reset_step (h : InOrder log v) (hq : Matches .sequence q v) (hv : q.valid = true)
    {width height format : ℤ} {x : AllocResult}
    (hq' : Matches .sequence q' (v.reset width height format)) :
    InOrder (log ++ [⟨q, (.reset width height format, x), r, q'⟩])
      (v.reset width height format) := by
  by_cases hclear : v.Clears (.reset width height format)
  · have he : v.reset width height format = { v.clear with settings := { v.clear.settings with
        width := width, height := height, format := format } } := by
      unfold View.reset
      rw [if_neg hclear]
    rw [he]
    exact clear ⟨hv, hq.clears_iff.mpr hclear⟩ rfl ((Int.natCast_nonneg _).trans h.fits)
  · have he : v.reset width height format = v := by
      unfold View.reset
      rw [if_pos (not_not.mp hclear)]
    rw [he] at hq' ⊢
    exact h.idle hq (hq.nodesOn_eq _) hq' (fun hc => hclear (hq.clears_iff.mp hc.2)) rfl
      (fun rs => List.append_nil rs) rfl rfl le_rfl

private theorem flush_step (h : InOrder log v) (hq : Matches .sequence q v) (hv : q.valid = true)
    {x : AllocResult} (hq' : Matches .sequence q' v.flush) :
    InOrder (log ++ [⟨q, (.flush, x), r, q'⟩]) v.flush := by
  by_cases hl : v.list = []
  · have he : v.flush = v := if_pos hl
    rw [he] at hq' ⊢
    exact h.idle hq (hq.nodesOn_eq _) hq' (fun hc => hq.clears_iff.mp hc.2 hl) rfl
      (fun rs => List.append_nil rs) rfl rfl le_rfl
  · have he : v.flush = v.clear := if_neg hl
    rw [he]
    have hclear : v.Clears .flush := hl
    exact clear ⟨hv, hq.clears_iff.mpr hclear⟩ rfl ((Int.natCast_nonneg _).trans h.fits)

private theorem setSize_step (h : InOrder log v) (hq : Matches .sequence q v) (hv : q.valid = true)
    {n : ℤ} {flush : Bool} {x : AllocResult} (hsize : q.KeepsSize (.setSize n flush))
    (hq' : Matches .sequence q' (v.setSize n flush).2) :
    InOrder (log ++ [⟨q, (.setSize n flush, x), r, q'⟩]) (v.setSize n flush).2 := by
  by_cases hclear : 0 < n ∧ flush = true
  · obtain ⟨hn, rfl⟩ := hclear
    have he : (v.setSize n true).2 =
        { v.clear with settings := { v.clear.settings with queueSize := n } } := by
      simp [View.setSize, not_le.mpr hn]
    rw [he]
    exact clear ⟨hv, hn, rfl⟩ rfl hn.le
  · have he : (v.setSize n flush).2.lists = v.lists ∧ (v.setSize n flush).2.node = v.node ∧
        v.settings.queueSize ≤ (v.setSize n flush).2.settings.queueSize := by
      unfold View.setSize
      by_cases hn : n ≤ 0
      · simp [hn]
      · obtain rfl : flush = false := by simpa [not_le.mp hn] using hclear
        have hle : v.settings.queueSize ≤ n := by
          rw [← hq.queueSize]
          exact hsize rfl (not_le.mp hn)
        have hk : (v.settings.queueSize - n).toNat = 0 := by omega
        by_cases hsame : v.settings.queueSize = n
        · simp [hn, hsame]
        · simp [hn, hsame, hk, Lists.dropFree, hle]
    exact h.idle hq (hq.nodesOn_eq _) hq' (fun hc => hclear hc.2) rfl
      (fun rs => List.append_nil rs) he.1 he.2.1 he.2.2

/-- Every live call of a sequence run keeps the order. -/
private theorem liveStep (h : InOrder log v) (hq : Matches .sequence q v) (hv : q.valid = true)
    (hok : q.Behaved c.1 ∧ q.KeepsSize c.1 ∧ q.Fresh c)
    (hlive : (v.liveStep .sequence c.1 c.2).2.settings.valid = true)
    (hq' : Matches .sequence q' (v.liveStep .sequence c.1 c.2).2) :
    InOrder (log ++ [⟨q, c, (v.liveStep .sequence c.1 c.2).1, q'⟩])
      (v.liveStep .sequence c.1 c.2).2 := by
  obtain ⟨op, x⟩ := c
  obtain ⟨hbeh, hsize, hfresh⟩ := hok
  cases op with
  | dequeue => exact h.dequeue_step hq hfresh hq'
  | enqueue surface =>
    cases surface with
    | none =>
      exact h.idle hq (hq.nodesOn_eq _) hq' (fun hc => hc.2) rfl (fun rs => List.append_nil rs)
        rfl rfl le_rfl
    | some s => exact h.enqueue_step hq hbeh hq'
  | acquire => exact h.acquire_step hq hq'
  | release surface =>
    cases surface with
    | none =>
      exact h.idle hq (hq.nodesOn_eq _) hq' (fun hc => hc.2) rfl (fun rs => List.append_nil rs)
        rfl rfl le_rfl
    | some s => exact h.release_step hq hbeh hq'
  | canDequeue wait =>
    have hg := h.grow hq (.inr ⟨wait, rfl⟩) hfresh
    have hqg := (hq.grow (c := True) x).follows
    have hb : q.nodesOn .sequence .dirty = (v.grow x).on .dirty := by
      rw [hq.nodesOn_eq, grow_dirty]
    have he : (v.canDequeue wait x).2 = v.grow x := by
      simp only [View.canDequeue]
      split_ifs <;> rfl
    simp only [View.liveStep, he] at hq' ⊢
    exact hg.idle hqg hb hq' (fun hc => hc.2) rfl (fun rs => List.append_nil rs) rfl rfl le_rfl
  | canAcquire wait =>
    exact h.idle hq (hq.nodesOn_eq _) hq' (fun hc => hc.2) rfl (fun rs => List.append_nil rs)
      rfl rfl le_rfl
  | reset width height format => exact h.reset_step hq hv hq'
  | flush => exact h.flush_step hq hv hq'
  | setSize n flush => exact h.setSize_step hq hv hsize hq'
  | setAllocCb allocCb freeCb =>
    exact h.idle hq (hq.nodesOn_eq _) hq' (fun hc => hc.2) rfl (fun rs => List.append_nil rs)
      rfl rfl le_rfl
  | destroy => simp [View.liveStep] at hlive

variable {op : Op}

private theorem sound (h : InOrder log v) (hq : Matches .sequence q v) (hb : q.Behaved op) :
    v.Sound op := by
  unfold View.Sound
  split
  · intro n hl
    obtain ⟨k, hk, hsurf, htype⟩ := hb
    rw [hq.attached_eq] at hk
    rw [hq.node k hk] at hsurf htype
    have hout := (h.acquired k hk).mp htype
    have hlk := hq.lookup_of_distinct h.distinct hk (hout .free) (hout .dirty)
    have hs : v.surf k = _ := hsurf
    rw [hs, hl] at hlk
    obtain rfl : n = k := by simpa using hlk
    exact ⟨fun hd => absurd hd (hout .dequeue), fun hlt => absurd hlt (not_lt.mpr h.fits)⟩
  · trivial

/-- The front of the requests that is answered is what has been moved. -/
private theorem takeWhile_requests (h : InOrder log v) :
    (log.requests.takeWhile (·.2)).map (·.1) = log.moved := by
  have hpend : ((v.on .dequeue).map fun n =>
      (v.surf n, decide ((v.node n).privFlags = 0))).takeWhile (·.2) = [] := by
    cases hd : v.on .dequeue with
    | nil => rfl
    | cons n ns => simp [h.front n ns hd]
  rw [h.requests, List.takeWhile_append_of_pos (by simp), hpend, List.append_nil, List.map_map]
  simp [Function.comp_def]

private theorem acquired_prefix (h : InOrder log v) : log.acquired <+: log.dequeued := by
  have hmoved : log.acquired <+: log.moved := by
    rw [h.moved]
    exact List.prefix_append _ _
  have htake : log.moved <+: log.dequeued := by
    rw [← h.takeWhile_requests, ← Log.requests_fst]
    exact (List.takeWhile_prefix _).map _
  exact hmoved.trans htake

end InOrder

variable {queueSize width height format flags : ℤ} {q : SurfaceQueue}

/-- What has been moved to `dirty_queue` since the last clearing call is the longest front of the
dequeue events all of whose surfaces have been enqueued, in the order of the dequeues; the
consumer gets a front of it. -/
theorem sequence_delivers_in_order {cs : List (Op × AllocResult)}
    (hc : tbmSurfaceQueueSequenceCreate queueSize width height format flags = some q)
    (hp : Permitted (step .sequence) InSequence cs q) :
    ∃ log q', run (step .sequence) cs q = some (log, q') ∧ (q'.valid = true →
      Log.moved log = ((Log.requests log).takeWhile (·.2)).map (·.1) ∧
      Log.moved log = Log.acquired log ++
        (q'.nodesOn .sequence .dirty).map (fun n => (q'.node n).surface) ∧
      Log.acquired log <+: Log.dequeued log) := by
  have hm : Matches .sequence q _ := create_matches hc
  have hpos : 0 < queueSize := by
    unfold tbmSurfaceQueueSequenceCreate surfaceQueueNew at hc
    by_contra hn
    simp [hn] at hc
  have hstart : InOrder [] (.init queueSize width height format flags) := by
    refine ⟨by simp [View.Distinct, View.init, View.list, Lists.empty], hpos.le, ?_, nofun,
      rfl, rfl⟩
    simp [View.init, View.list, Lists.empty]
  obtain ⟨log, q', hr, v, hv, hord⟩ := run_total
    (fun log q => ∃ v, Tracks .sequence q v ∧ (v.settings.valid = true → InOrder log v))
    ⟨_, ⟨hm.settings, fun _ => hm⟩, fun _ => hstart⟩ (by
      rintro log q c ⟨v, hv, hord⟩ hok
      by_cases hval : v.settings.valid = true
      · have hq : q.valid = true := hv.valid_eq.trans hval
        have hlive := hv.live hval
        obtain ⟨q', he, ht, -⟩ := hv.call (fun _ => (hord hval).sound hlive (hok hq).1) c.2
        rw [View.step, if_pos hval] at he ht
        exact ⟨_, q', he, _, ht, fun hval' =>
          (hord hval).liveStep hlive hq (hok hq) hval' (ht.live hval')⟩
      · have hq : q.valid = false := by
          rw [Bool.not_eq_true] at hval
          exact hv.valid_eq.trans hval
        exact ⟨_, q, Tracks.refused hq c.1 c.2, v, hv, fun h => absurd h hval⟩) hp
  refine ⟨log, q', hr, fun hval => ?_⟩
  rw [hv.valid_eq] at hval
  have hlive := hv.live hval
  have hin := hord hval
  refine ⟨hin.takeWhile_requests.symm, ?_, hin.acquired_prefix⟩
  rw [hin.moved, hlive.nodesOn_eq]
  refine congrArg _ (List.map_congr_left fun n hn => ?_)
  rw [hlive.node n (hlive.on_sub hn)]
  rfl

theorem sequence_delivers_in_order_swapped : ∃ q log q',
    tbmSurfaceQueueSequenceCreate 3 4 4 1 0 = some q ∧
    run (step .sequence) [allocating .dequeue 7, allocating .dequeue 8, quiet (.enqueue (some 8)),
      allocating .dequeue 9, quiet (.enqueue (some 7)), quiet .acquire, quiet (.release (some 7)),
      quiet .dequeue] q = some (log, q') ∧
    (q'.valid = true →
      Log.moved log = ((Log.requests log).takeWhile (·.2)).map (·.1) ∧
      Log.moved log = Log.acquired log ++
        (q'.nodesOn .sequence .dirty).map (fun n => (q'.node n).surface) ∧
      Log.acquired log <+: Log.dequeued log) := by
  have hc : tbmSurfaceQueueSequenceCreate 3 4 4 1 0 = some _ := rfl
  obtain ⟨log, q', h⟩ := sequence_delivers_in_order hc (by decide +kernel : Permitted _ _
    [allocating .dequeue 7, allocating .dequeue 8, quiet (.enqueue (some 8)),
      allocating .dequeue 9, quiet (.enqueue (some 7)), quiet .acquire, quiet (.release (some 7)),
      quiet .dequeue] _)
  exact ⟨_, log, q', hc, h⟩

end Tbm.Queue
