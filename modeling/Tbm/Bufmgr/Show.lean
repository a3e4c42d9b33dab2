import Tbm.Bufmgr.Buffers
import Tbm.Bufmgr.Handles

/-! When the two buffers that `tbm_bufmgr_debug_show` has on the stack are long enough for the debug
data, and what it prints then. -/
namespace Tbm.Bufmgr

open Prog Runs

/-- Every line on a slot of a surface finds a live buffer object there. -/
def State.shown (s : State) : Bool :=
  s.surfList.all fun h =>
    (List.range (s.surface h).numBos.toNat).all fun i => (s.slotBo h i).isSome

section Slots

variable {s : State} {L : Ledger} {backend : Backend} {w : World} {turns : List Turn}
  {log : List (Entry World Turn Reply)}

theorem Full.shown (hf : Full s L) (hb : Books s L) (hd : L.dying = none) : s.shown := by
  simp only [State.shown, List.all_eq_true, List.mem_range]
  intro h hh i hi
  obtain ⟨c, -, hslot⟩ := hf.slotBo hb hd hh hi
  simp [hslot]

/-- Wherever a run has come to, every slot of every surface has a live buffer object. -/
theorem run_shown
    (hp : Permitted (World.step backend) (fun w t => w.inited t ∧ w.owns t ∧ w.gapless t) turns
      .initial)
    (hr : run (World.step backend) turns .initial = some (log, w)) :
    ∃ o, Life w.state (w.ledger o) ∧ Books w.state (w.ledger o) ∧ w.state.shown ∧
      (w.state.freshAllocs = true → Distinct w.state) := by
  obtain ⟨o, hl, hb, hf, hd⟩ := run_safe (fun _ w => ∃ o, Life w.state (w.ledger o) ∧
    Books w.state (w.ledger o) ∧ Full w.state (w.ledger o) ∧
      (w.state.freshAllocs = true → Distinct w.state))
    ⟨false, life_initial, ordered_initial.books, by simp [Full, World.initial, State.initial],
      fun _ => ⟨by simp [World.initial, State.initial], by simp [World.initial, State.initial]⟩⟩
    (by
      rintro _ w t r w' ⟨o, hl, hb, hf, hd⟩ ⟨hi, ho, hg⟩ hs
      obtain ⟨o', -, hmoves, -⟩ := step_moves (A := ⟨False, True, False⟩) hl hi (.inr ho)
        (fun _ => trivial) (.inr hg) hs
      obtain ⟨hl', hb', hf', hd'⟩ := hmoves.keep (P := fun s L => Books s L ∧ Full s L ∧
          (s.freshAllocs = true → Distinct s))
        (fun hl hm hP => ⟨hm.books hl not_false hP.1, hm.full hl not_false hP.2.1, fun hfresh => by
          obtain ⟨hold, hkeep⟩ := hm.distinct hl hfresh
          exact hkeep (hP.2.2 hold)⟩) hl ⟨hb, hf, hd⟩
      exact ⟨o', hl', hb', hf', hd'⟩) hp hr
  exact ⟨o, hl, hb, hf.shown hb rfl, hd⟩

end Slots

section Report

variable (x : ShowAnswers) (s : State)

namespace DebugState

variable (d : DebugState)

/-- The keys, in the order of their columns. -/
def keys : List Str := d.debugKeyList.filterMap DebugData.key

/-- What stands in the column of a key. -/
def cell (h : Surface) (key : Str) : Str :=
  (((d.debugDataList h).find? fun e => e.key = some key).bind DebugData.value).getD (ascii "none")

/-- The title and the line of a surface with their columns. -/
def title : Str := titleText ++ d.keys.flatMap fun key => ascii "  " ++ key

def data (r : Surface × ℕ) : Str :=
  snprintf 255 (surfaceText x s (r.2 + 1) r.1) ++ d.keys.flatMap fun key =>
    ascii "  " ++ d.cell r.1 key

/-- The buffers suffice, and every surface has a format with a name. -/
structure Showable : Prop where
  title : d.title.length < 512
  data : ∀ r ∈ s.surfList.zipIdx, (d.data x s r).length < 512
  format : ∀ h ∈ s.surfList, (s.surface h).info.format.isNamed

/-- The whole report. -/
def report : List Str :=
  [[], ascii "============TBM DEBUG: " ++ appName x x.pid ++ ascii "(" ++
    ascii (String.ofList (decimal x.pid)) ++ ascii ")===========================",
    ascii "[tbm_surface information]", d.title] ++
    (if s.surfList = [] then [ascii "no tbm_surfaces."] else s.surfList.zipIdx.flatMap fun r =>
      d.data x s r :: (s.surface r.1).held.map (slotText x s)) ++
    [[], ascii "[tbm_bo information]",
    ascii "no  bo          refcnt  size    lock_cnt  map_cnt  flags  surface"] ++
    (if s.boList = [] then [ascii "no tbm_bos."]
      else s.boList.zipIdx.map fun r => boText x s (r.2 + 1) r.1) ++
    [[], ascii "==============================================================="]

instance : Decidable (d.Showable x s) :=
  decidable_of_iff (d.title.length < 512 ∧
    (∀ r ∈ s.surfList.zipIdx, (d.data x s r).length < 512) ∧
    ∀ h ∈ s.surfList, (s.surface h).info.format.isNamed)
    ⟨fun h => ⟨h.1, h.2.1, h.2.2⟩, fun h => ⟨h.title, h.data, h.format⟩⟩

end DebugState

section Lines

variable {x s} {d : DebugState} {l : List DebugData} {h : Surface} {buf t : Str} {n : ℕ}

theorem ascii_blanks : (ascii "  ").length = 2 := rfl

theorem appendStr_column (hn : t.length ≤ n) :
    ((appendStr buf (ascii "  ") 3).bind fun buf => appendStr buf t n) =
      if (buf ++ (ascii "  " ++ t)).length < 512 then some (buf ++ (ascii "  " ++ t))
      else none := by
  have hblanks : (ascii "  ").length ≤ 3 := by decide
  unfold appendStr
  rw [strncat_eq hblanks, ascii_blanks, List.length_append, List.length_append, ascii_blanks]
  by_cases hb : buf.length + 2 < 512
  · rw [if_pos hb, Option.bind_some, strncat_eq hn, List.length_append, ascii_blanks,
      List.append_assoc, Nat.add_assoc]
  · have hall : ¬buf.length + (2 + t.length) < 512 := by omega
    rw [if_neg hb, if_neg hall]
    rfl

/-- The entries of a list of keys against the keys. -/
theorem flatMap_keys (hl : Named l) (g : Str → Str) :
    (l.flatMap fun e => ascii "  " ++ g (e.key.getD [])) =
      (l.filterMap DebugData.key).flatMap fun key => ascii "  " ++ g key := by
  induction l with
  | nil => rfl
  | cons e l ih =>
    obtain ⟨he, hl⟩ := List.forall_mem_cons.mp hl
    obtain ⟨key, hkey⟩ := Option.isSome_iff_exists.mp he
    rw [List.flatMap_cons, ih hl, List.filterMap_cons_some hkey, List.flatMap_cons, hkey]
    rfl

theorem map_key (hl : Named l) :
    l.map DebugData.key = (l.filterMap DebugData.key).map some := by
  induction l with
  | nil => rfl
  | cons e l ih =>
    obtain ⟨he, hl⟩ := List.forall_mem_cons.mp hl
    obtain ⟨key, hkey⟩ := Option.isSome_iff_exists.mp he
    rw [List.map_cons, ih hl, List.filterMap_cons_some hkey, List.map_cons, hkey]

theorem showTitle_eq (hl : Named d.debugKeyList) :
    d.showTitle = if d.title.length < 512 then some d.title else none := by
  have htext : snprintf 255 titleText = titleText := snprintf_eq (by decide)
  have hstep : ∀ buf, ∀ e ∈ d.debugKeyList, (do
      let title ← appendStr buf (ascii "  ") 3
      let key ← e.key
      appendStr title key (key.length + 1)) =
        if (buf ++ (ascii "  " ++ e.key.getD [])).length < 512 then
          some (buf ++ (ascii "  " ++ e.key.getD [])) else none := by
    intro buf e he
    obtain ⟨key, hkey⟩ := Option.isSome_iff_exists.mp (hl e he)
    simp only [hkey, Option.bind_eq_bind, Option.bind_some, Option.getD_some]
    exact appendStr_column (Nat.le_succ _)
  have hkeys := flatMap_keys hl id
  simp only [id] at hkeys
  rw [DebugState.showTitle, htext, foldlM_append hstep (by decide), hkeys]
  rfl

theorem isNamed_iff (f : Format) : f.isNamed = true ↔ 11 ≤ f.toStr.length := by
  cases f with
  | other code =>
    have hshort : ¬11 ≤ "unknwon".length := by decide
    exact iff_of_false Bool.false_ne_true hshort
  | _ => exact iff_of_true rfl (by decide)

/-- The line of a surface whose entries all have keys. -/
theorem showData_eq (hl : Named d.debugKeyList) (hd : Named (d.debugDataList h)) (i : ℕ) :
    d.showData x s (i + 1) h =
      if (s.surface h).info.format.isNamed ∧ (d.data x s (h, i)).length < 512 then
        some (d.data x s (h, i)) else none := by
  have hstep : ∀ buf, ∀ e ∈ d.debugKeyList, d.showValue h buf e =
      if (buf ++ (ascii "  " ++ d.cell h (e.key.getD []))).length < 512 then
        some (buf ++ (ascii "  " ++ d.cell h (e.key.getD []))) else none := by
    intro buf e he
    obtain ⟨key, hkey⟩ := Option.isSome_iff_exists.mp (hl e he)
    have hfind : d.tbmSurfaceInternalGetDebugData h key = _ := findDebugData_named hd
    simp only [DebugState.showValue, hkey, hfind, Option.bind_eq_bind, Option.bind_some,
      Option.getD_some]
    cases hv : ((d.debugDataList h).find? fun e => e.key = some key).bind DebugData.value with
    | none =>
      have hcell : d.cell h key = ascii "none" := by rw [DebugState.cell, hv, Option.getD_none]
      rw [hcell]
      exact appendStr_column (by decide)
    | some value =>
      have hcell : d.cell h key = value := by rw [DebugState.cell, hv, Option.getD_some]
      rw [hcell]
      exact appendStr_column (Nat.le_succ _)
  have htext : (snprintf 255 (surfaceText x s (i + 1) h)).length < 512 :=
    (length_snprintf (by decide)).trans (by decide)
  have hkeys := flatMap_keys hl (d.cell h)
  by_cases hf : (s.surface h).info.format.isNamed
  · rw [DebugState.showData, if_pos ((isNamed_iff _).mp hf)]
    refine (foldlM_append hstep htext).trans ?_
    rw [hkeys]
    simp only [hf, true_and]
    rfl
  · rw [DebugState.showData, if_neg fun hlen => hf ((isNamed_iff _).mpr hlen),
      if_neg fun hall => hf hall.1]

theorem slotBo_eq {b : Bo} {i : ℕ} (hb : s.slotBo h i = some b) : (s.surface h).bos i = some b := by
  obtain ⟨r, hr, hb⟩ := Option.bind_eq_some_iff.mp hb
  obtain ⟨c, rfl, hb⟩ := Option.bind_eq_some_iff.mp hb
  obtain ⟨-, hcb⟩ := Option.ite_none_right_eq_some.mp hb
  obtain ⟨-, hc⟩ := Option.ite_none_right_eq_some.mp hr
  exact (Option.some.inj hc).trans hcb

theorem mapM_slots {is : List ℕ} (hs : ∀ i ∈ is, (s.slotBo h i).isSome) :
    (is.mapM fun i => (s.slotBo h i).map (slotText x s)) =
      some ((is.filterMap (s.surface h).bos).map (slotText x s)) := by
  induction is with
  | nil => rfl
  | cons i is ih =>
    obtain ⟨hi, his⟩ := List.forall_mem_cons.mp hs
    obtain ⟨b, hb⟩ := Option.isSome_iff_exists.mp hi
    rw [List.mapM_cons, hb, ih his, List.filterMap_cons_some (slotBo_eq hb)]
    rfl

theorem showSurface_eq (hl : Named d.debugKeyList) (hd : Named (d.debugDataList h))
    (hs : s.shown) (hh : h ∈ s.surfList) (i : ℕ) : d.showSurface x s (i + 1) h =
      if (s.surface h).info.format.isNamed ∧ (d.data x s (h, i)).length < 512 then
        some (d.data x s (h, i) :: (s.surface h).held.map (slotText x s)) else none := by
  have hslots : ∀ i ∈ List.range (s.surface h).numBos.toNat, (s.slotBo h i).isSome :=
    List.all_eq_true.mp (List.all_eq_true.mp hs h hh)
  have hbos : _ = some ((s.surface h).held.map (slotText x s)) := mapM_slots hslots
  rw [DebugState.showSurface, showData_eq hl hd, hbos]
  by_cases hroom : (s.surface h).info.format.isNamed ∧ (d.data x s (h, i)).length < 512
  · rw [if_pos hroom, if_pos hroom]
    rfl
  · rw [if_neg hroom, if_neg hroom]
    rfl

theorem showSurfaces_eq (hd : d.Keyed) (hsurf : s.surfList = d.surfList) (hs : s.shown) :
    d.showSurfaces x s = if ∀ r ∈ s.surfList.zipIdx,
        (s.surface r.1).info.format.isNamed ∧ (d.data x s r).length < 512 then
        some (if s.surfList = [] then [[ascii "no tbm_surfaces."]] else
          s.surfList.zipIdx.map fun r =>
            d.data x s r :: (s.surface r.1).held.map (slotText x s)) else none := by
  unfold DebugState.showSurfaces
  by_cases hnil : s.surfList = []
  · simp [hnil]
  · simp only [hnil, if_false]
    refine mapM_ite fun r hr => ?_
    have hh := List.fst_mem_of_mem_zipIdx hr
    exact showSurface_eq hd.list (hd.data r.1 (hsurf ▸ hh)) hs hh r.2

theorem showable_iff : d.Showable x s ↔ d.title.length < 512 ∧ ∀ r ∈ s.surfList.zipIdx,
    (s.surface r.1).info.format.isNamed ∧ (d.data x s r).length < 512 := by
  constructor
  · intro h
    exact ⟨h.title, fun r hr => ⟨h.format r.1 (List.fst_mem_of_mem_zipIdx hr), h.data r hr⟩⟩
  · rintro ⟨htitle, hlines⟩
    refine ⟨htitle, fun r hr => (hlines r hr).2, fun h hh => ?_⟩
    obtain ⟨i, hi, rfl⟩ := List.getElem_of_mem hh
    exact (hlines (s.surfList[i], i) (by simp [List.mem_zipIdx_iff_getElem?, hi])).1

/-- What is printed wherever nothing is missing that the report reads. -/
theorem tbmBufmgrDebugShow_eq (hd : d.Keyed) (hsurf : s.surfList = d.surfList) (hs : s.shown)
    (hg : s.gBufMgr.isSome) : d.tbmBufmgrDebugShow x s s.gBufMgr =
      if d.Showable x s then some (d.report x s) else none := by
  rw [DebugState.tbmBufmgrDebugShow, if_pos ⟨hg, rfl⟩, showTitle_eq hd.list,
    showSurfaces_eq hd hsurf hs]
  by_cases htitle : d.title.length < 512
  · by_cases hlines : ∀ r ∈ s.surfList.zipIdx,
        (s.surface r.1).info.format.isNamed ∧ (d.data x s r).length < 512
    · rw [if_pos htitle, if_pos hlines, if_pos (showable_iff.mpr ⟨htitle, hlines⟩)]
      simp only [Option.bind_eq_bind, Option.bind_some, DebugState.report]
      by_cases hnil : s.surfList = []
      · simp [hnil]
      · simp only [hnil, if_false, List.flatMap_def]
    · rw [if_pos htitle, if_neg hlines, if_neg fun h => hlines (showable_iff.mp h).2]
      rfl
  · rw [if_neg htitle, if_neg fun h => htitle (showable_iff.mp h).1]
    rfl

end Lines

end Report

section Run

variable {x : ShowAnswers} {backend : Backend} {w : World} {turns : List Turn}
  {log : List (Entry World Turn Reply)} {d : DebugState} {calls : List DebugCall}
  {dlog : List (Entry DebugState DebugCall Bool)}

/-- Wherever a run has come to, with whatever debug data its surfaces have been given, the report
is printed just if the title and every line have room on the stack and every format has a name. It
then has a column for every key of a live surface, and one only. -/
theorem debug_show
    (hp : Permitted (World.step backend) (fun w t => w.inited t ∧ w.owns t ∧ w.gapless t) turns
      .initial)
    (hr : run (World.step backend) turns .initial = some (log, w))
    (hg : w.state.gBufMgr.isSome) (hcalls : ∀ c ∈ calls, c.named)
    (hd : run DebugState.step calls .initial = some (dlog, d))
    (hsurf : w.state.surfList = d.surfList) :
    (d.tbmBufmgrDebugShow x w.state w.state.gBufMgr =
      if d.Showable x w.state then some (d.report x w.state) else none) ∧ d.keys.Nodup ∧
    ∀ h ∈ d.surfList, ∀ e ∈ d.debugDataList h, ∃ key ∈ d.keys, e.key = some key := by
  obtain ⟨o, -, -, hshown, -⟩ := run_shown hp hr
  have hkeyed : d.Keyed := by
    have hnamed : Permitted DebugState.step (fun _ c => c.named) calls .initial :=
      Permitted.of_forall fun c hc _ => hcalls c hc
    apply run_safe (fun _ s => DebugState.Keyed s) initial_keyed ?_ hnamed hd
    intro log s c r s' hs hc hstep
    obtain ⟨r', t, ht, hkeyed, -⟩ := step_keysOnce hc hs
    obtain ⟨-, rfl⟩ := Prod.mk.inj (Option.some.inj (hstep.symm.trans ht))
    exact hkeyed
  refine ⟨tbmBufmgrDebugShow_eq hkeyed hsurf hshown hg, ?_, fun h hh e he => ?_⟩
  · apply List.Nodup.of_map some
    rw [DebugState.keys, ← map_key hkeyed.list]
    exact hkeyed.nodup
  · have hmem := hkeyed.covers h hh e he
    rw [map_key hkeyed.list] at hmem
    obtain ⟨key, hkey, heq⟩ := List.mem_map.mp hmem
    exact ⟨key, hkey, heq.symm⟩

/-- A process that was started by its path. -/
private def started : ShowAnswers where
  pid := 42
  cmdline := fun _ => some (ascii "/usr/bin/player" ++ [0])
  surfacePtr := fun h => if h.isSome then ascii "0x55d0" else ascii "(nil)"
  boPtr := fun _ => ascii "0x55c0"
  boSize := fun _ => 4096
  debugPid := fun _ => 0

private def plenty : DebugAllocs := ⟨true, true, true, fun _ => true, true, true⟩

/-- A surface has two keys, of which another one has none. -/
private def labelled : List DebugCall :=
  [.create true, .create true, .set 0 (some (ascii "name")) (some (ascii "video")) plenty,
    .set 0 (some (ascii "owner")) none plenty]

private def twoSurfaces : List Turn :=
  [⟨.surfaceCreateWithFlags 4 6 .nv12 0, .granted 7⟩,
    ⟨.surfaceCreateWithFlags 4 6 .rgb565 0, .granted 9⟩]

theorem debug_show_labelled : ∃ log w dlog d,
    run (World.step .plain) twoSurfaces .initial = some (log, w) ∧
    run DebugState.step labelled .initial = some (dlog, d) ∧
    d.tbmBufmgrDebugShow started w.state w.state.gBufMgr = some (d.report started w.state) ∧
    (d.report started w.state)[3]? = some (titleText ++ ascii "  owner  name") ∧
    d.keys.Nodup ∧
    ∀ h ∈ d.surfList, ∀ e ∈ d.debugDataList h, ∃ key ∈ d.keys, e.key = some key := by
  have hrun : ((run (World.step .plain) twoSurfaces .initial).bind fun r =>
      (run DebugState.step labelled .initial).map fun q => (r.2.state.gBufMgr.isSome,
        decide (r.2.state.surfList = q.2.surfList), decide (q.2.Showable started r.2.state),
        (q.2.report started r.2.state)[3]?)) =
      some (true, true, true, some (titleText ++ ascii "  owner  name")) := by decide +kernel
  obtain ⟨⟨log, w⟩, hr, hrest⟩ := Option.bind_eq_some_iff.mp hrun
  obtain ⟨⟨dlog, d⟩, hd, hall⟩ := Option.map_eq_some_iff.mp hrest
  simp only [Prod.mk.injEq, decide_eq_true_eq] at hall
  obtain ⟨hg, hsurf, hshow, htitle⟩ := hall
  have hcalls : ∀ c ∈ labelled, c.named := by simp [labelled, DebugCall.named, plenty]
  obtain ⟨hprint, hkeys⟩ := debug_show (x := started) (by decide +kernel) hr hg hcalls hd hsurf
  rw [if_pos hshow] at hprint
  exact ⟨log, w, dlog, d, hr, hd, hprint, htitle, hkeys⟩

end Run

end Tbm.Bufmgr
