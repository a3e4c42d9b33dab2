import Tbm.Bufmgr.Ring

/-! The ring of buffers is what the programs that take the mutexes see of a dump. -/
namespace Tbm.Bufmgr

open Prog Rotation

variable {r0 r : DumpRing} {size : Int32} {l : List DumpImage} {b : DumpSlot}

def DumpSlot.buf (b : DumpSlot) : DumpBuf := ⟨b.bo, b.size.toInt⟩

/-- The dump without what is only written to the files. -/
def DumpRing.view (r : DumpRing) : DumpInfo := ⟨r.slots.map DumpSlot.buf, some r.link⟩

theorem Holding.view_next (h : Holding r0 size l r) (hb : r.entry r.nextLink = some b) :
    r.view.next = some (r.nextLink - 1, b.buf) := by
  have hlink : r.link < r.slots.length ∨ r.link = r.slots.length := by
    have hle : r.link ≤ r.slots.length := by
      rw [h.link, h.len]
      unfold cursor
      split_ifs
      · exact Nat.zero_le _
      · exact Nat.mod_lt _ h.pos
    omega
  have hi : (if r.link < r.view.bufs.length then r.link else 0) = r.nextLink - 1 := by
    unfold DumpRing.nextLink DumpRing.view
    rw [List.length_map, h.len]
    have hfirst : r.links.next 0 = 1 := by
      rw [next_range h.ring (Nat.zero_le _), if_neg (by have := h.pos; omega)]
    rw [h.len] at hlink
    rcases hlink with hlt | heq
    · have hnext : r.links.next r.link = r.link + 1 := by
        rw [next_range h.ring (Nat.le_of_lt hlt), if_neg (Nat.ne_of_lt hlt)]
      rw [if_pos hlt, hnext, if_neg (Nat.succ_ne_zero _), Nat.add_sub_cancel]
    · have hnext : r.links.next r.link = 0 := by
        rw [next_range h.ring (Nat.le_of_eq heq), if_pos heq]
      rw [if_neg (by omega), hnext, if_pos rfl, hfirst]
  have hget : r.slots[r.nextLink - 1]? = some b := by
    unfold DumpRing.entry at hb
    cases hn : r.nextLink with
    | zero => simp [hn] at hb
    | succ i => simpa [hn] using hb
  unfold DumpInfo.next
  show (do
    let i := if r.link < r.view.bufs.length then r.link else 0
    let b ← r.view.bufs[i]?
    some (i, b)) = _
  simp only [hi]
  show (do let b ← (r.slots.map DumpSlot.buf)[r.nextLink - 1]?; some (r.nextLink - 1, b)) = _
  rw [List.getElem?_map, hget]
  rfl

theorem DumpRing.view_setNext (r : DumpRing) (hb : r.entry r.nextLink = some b) (v : DumpSlot)
    (hv : v.buf = b.buf) : (r.setNext v).view = r.view := by
  have hslots : (r.slots.set (r.nextLink - 1) v).map DumpSlot.buf = r.slots.map DumpSlot.buf := by
    unfold DumpRing.entry at hb
    cases hn : r.nextLink with
    | zero => simp [hn] at hb
    | succ i =>
      rw [hn] at hb
      obtain ⟨hi, rfl⟩ := List.getElem?_eq_some_iff.mp hb
      rw [List.map_set, hv, Nat.add_sub_cancel]
      have hlen : i < (r.slots.map DumpSlot.buf).length := by
        rw [List.length_map]
        exact hi
      have hset := List.set_getElem_self hlen
      rwa [List.getElem_map] at hset
  show DumpInfo.mk _ _ = _
  unfold DumpRing.view
  rw [← hslots]
  rfl

/-- An `int` that is compared with an unsigned number. -/
theorem ofInt_toInt (n : Int32) : UInt32.ofInt n.toInt = n.toUInt32 := by
  have hint := n.toBitVec.toInt_eq_toNat_cond
  have hlt : n.toBitVec.toNat < 2 ^ 32 := n.toBitVec.isLt
  rw [← UInt32.toNat_inj]
  show (n.toBitVec.toInt % 2 ^ 32).toNat % 2 ^ 32 = n.toBitVec.toNat
  split at hint
  · omega
  · omega

theorem DumpRing.view_accept (r : DumpRing) (hb : r.entry r.nextLink = some b) (v : DumpSlot)
    (hv : v.buf = b.buf) : (r.accept v).view = { r.view with link := some r.nextLink } := by
  have hset := r.view_setNext hb v hv
  show DumpInfo.mk (r.setNext v).view.bufs _ = _
  rw [hset]
  rfl

theorem exec_onMgr {α : Type} (x : Answers) (p : BProg α) (s : Store) :
    exec x (onMgr p) s = (exec x p s.mgr).map fun r => (r.1, s.setMgr r.2) :=
  exec_zoom Store.mgr Store.setMgr (fun _ _ => rfl) (fun _ => rfl) (fun _ _ _ => rfl) x p s

theorem onMgr_dump {α : Type} {x : Answers} {p : BProg α} {s s' : Store} {a : α}
    (he : exec x (onMgr p) s = some (a, s')) : s'.dump = s.dump := by
  rw [exec_onMgr] at he
  obtain ⟨q, -, hq⟩ := Option.map_eq_some_iff.mp he
  obtain ⟨-, rfl⟩ := Prod.mk.inj hq
  rfl

theorem dumpBuffer_view {backend : Backend} {me : ℕ} {x : Answers} {s s' : Store} {surf : Surface}
    (h : Holding r0 size l r) (hd : s.dump = some r.view)
    (he : exec x (tbmSurfaceInternalDumpBuffer backend me (some surf) true) s = some ((), s')) :
    ∃ (map : Option SurfaceInfo) (boMap : Bool), ∀ ptr type time ok r',
      r.tbmSurfaceInternalDumpBuffer (some surf) (some type) (map.map fun i => ⟨i, ptr⟩) boMap
        time = some (ok, r') → s'.dump = some r'.view := by
  obtain ⟨b, hb, -⟩ := h.entry
  have hnext := h.view_next hb
  unfold tbmSurfaceInternalDumpBuffer nextBuf at he
  simp only [Option.isSome_some, true_and, if_true, exec_bind, exec_access, hd, hnext,
    Option.map_some, Option.bind_some] at he
  obtain ⟨⟨map, s₁⟩, hmap, he⟩ := Option.bind_eq_some_iff.mp he
  have hd₁ : s₁.dump = some r.view := (onMgr_dump hmap).trans hd
  cases map with
  | none =>
    obtain ⟨-, rfl⟩ : () = () ∧ s₁ = s' := by simpa using he
    refine ⟨none, false, fun ptr type time ok r' hr => ?_⟩
    obtain ⟨-, rfl⟩ : false = ok ∧ r = r' := by
      simpa [DumpRing.tbmSurfaceInternalDumpBuffer, hb] using hr
    exact hd₁
  | some info =>
    have hsize : UInt32.ofInt b.buf.size = b.size.toUInt32 := ofInt_toInt b.size
    simp only [hsize] at he
    by_cases hlarge : b.size.toUInt32 < info.size
    · rw [if_pos hlarge] at he
      refine ⟨some info, false, fun ptr type time ok r' hr => ?_⟩
      obtain ⟨-, rfl⟩ : false = ok ∧ r = r' := by
        simpa [DumpRing.tbmSurfaceInternalDumpBuffer, hb, hlarge] using hr
      exact (onMgr_dump he).trans hd₁
    · rw [if_neg hlarge, exec_bind] at he
      obtain ⟨⟨boMap, s₂⟩, hbo, he⟩ := Option.bind_eq_some_iff.mp he
      have hd₂ : s₂.dump = some r.view := (onMgr_dump hbo).trans hd₁
      refine ⟨some info, boMap, fun ptr type time ok r' hr => ?_⟩
      unfold DumpRing.tbmSurfaceInternalDumpBuffer at hr
      simp only [hb, Option.bind_eq_bind, Option.bind_some, Option.map_some, if_neg hlarge] at hr
      cases boMap with
      | false =>
        obtain ⟨-, rfl⟩ : false = ok ∧ r.setNext { b with info := info } = r' := by simpa using hr
        have he : exec x (onMgr (tbmSurfaceUnmap backend (some surf))) s₂ = some ((), s') := he
        rw [onMgr_dump he, hd₂, r.view_setNext hb { b with info := info } rfl]
      | true =>
        simp only [if_true, exec_bind] at he
        obtain ⟨⟨u, s₃⟩, hunmap, he⟩ := Option.bind_eq_some_iff.mp he
        obtain ⟨⟨v, s₄⟩, hsurf, he⟩ := Option.bind_eq_some_iff.mp he
        have hd₄ : s₄.dump = some r.view :=
          (onMgr_dump hsurf).trans ((onMgr_dump hunmap).trans hd₂)
        by_cases hformat : info.format.copied
        · rw [if_pos hformat] at he
          rw [if_pos rfl, if_pos hformat] at hr
          obtain ⟨contents, -, hr⟩ := Option.bind_eq_some_iff.mp hr
          obtain ⟨-, rfl⟩ := Prod.mk.inj (Option.some.inj hr)
          have hlink : r.nextLink - 1 + 1 = r.nextLink := by
            rw [h.nextLink, Nat.add_sub_cancel]
          simp only [onDump, exec_access, hd₄, hlink, Option.bind_eq_bind, Option.bind_some,
            Option.some.injEq, Prod.mk.injEq, true_and] at he
          rw [← he, r.view_accept hb]
          rfl
        · rw [if_neg hformat] at he
          rw [if_pos rfl, if_neg hformat] at hr
          obtain ⟨-, rfl⟩ : () = () ∧ s₄ = s' := by simpa using he
          obtain ⟨-, rfl⟩ := Prod.mk.inj (Option.some.inj hr)
          rw [hd₄, r.view_setNext hb { b with info := info, contents := b.zeros } rfl]

theorem dumpShmBuffer_view {backend : Backend} {me : ℕ} {x : Answers} {s s' : Store}
    {w ht stride : Int32} (h : Holding r0 size l r) (hd : s.dump = some r.view)
    (he : exec x (tbmSurfaceInternalDumpShmBuffer backend me true w.toInt ht.toInt stride.toInt
      true) s = some ((), s')) :
    ∃ boMap : Bool, ∀ ptr type time ok r',
      r.tbmSurfaceInternalDumpShmBuffer (some ptr) w ht stride (some type) boMap time =
        some (ok, r') → s'.dump = some r'.view := by
  obtain ⟨b, hb, -⟩ := h.entry
  have hnext := h.view_next hb
  unfold tbmSurfaceInternalDumpShmBuffer nextBuf at he
  have harg : (0 < w.toInt ∧ 0 < ht.toInt ∧ 0 < stride.toInt) ↔ 0 < w ∧ 0 < ht ∧ 0 < stride := by
    simp only [Int32.lt_iff_toInt_lt]
    exact Iff.rfl
  have hsize : b.buf.size < (Int32.ofInt stride.toInt * Int32.ofInt ht.toInt).toInt ↔
      b.size < stride * ht := by
    rw [Int32.ofInt_toInt, Int32.ofInt_toInt, Int32.lt_iff_toInt_lt]
    exact Iff.rfl
  simp only [true_and, and_true] at he
  by_cases hpos : 0 < w ∧ 0 < ht ∧ 0 < stride
  · rw [if_pos (harg.mpr hpos)] at he
    simp only [exec_bind, exec_access, hd, hnext, Option.map_some, Option.bind_some] at he
    by_cases hlarge : b.size < stride * ht
    · rw [if_pos (hsize.mpr hlarge)] at he
      obtain ⟨-, rfl⟩ : () = () ∧ s = s' := by simpa using he
      refine ⟨false, fun ptr type time ok r' hr => ?_⟩
      obtain ⟨-, rfl⟩ : false = ok ∧ r = r' := by
        simpa [DumpRing.tbmSurfaceInternalDumpShmBuffer, hb, hpos, hlarge] using hr
      exact hd
    · rw [if_neg (fun hlt => hlarge (hsize.mp hlt)), exec_bind] at he
      obtain ⟨⟨boMap, s₁⟩, hbo, he⟩ := Option.bind_eq_some_iff.mp he
      have hd₁ : s₁.dump = some r.view := (onMgr_dump hbo).trans hd
      refine ⟨boMap, fun ptr type time ok r' hr => ?_⟩
      unfold DumpRing.tbmSurfaceInternalDumpShmBuffer at hr
      simp only [if_pos hpos, hb, Option.bind_eq_bind, Option.bind_some, if_neg hlarge] at hr
      cases boMap with
      | false =>
        obtain ⟨-, rfl⟩ : () = () ∧ s₁ = s' := by simpa using he
        obtain ⟨-, rfl⟩ : false = ok ∧ r = r' := by simpa using hr
        exact hd₁
      | true =>
        simp only [if_true, exec_bind] at he hr
        obtain ⟨⟨u, s₂⟩, hunmap, he⟩ := Option.bind_eq_some_iff.mp he
        have hd₂ : s₂.dump = some r.view := (onMgr_dump hunmap).trans hd₁
        obtain ⟨contents, -, hr⟩ := Option.bind_eq_some_iff.mp hr
        obtain ⟨-, rfl⟩ := Prod.mk.inj (Option.some.inj hr)
        have hlink : r.nextLink - 1 + 1 = r.nextLink := by
          rw [h.nextLink, Nat.add_sub_cancel]
        simp only [onDump, exec_access, hd₂, hlink, Option.bind_eq_bind, Option.bind_some,
          Option.some.injEq, Prod.mk.injEq, true_and] at he
        rw [← he, r.view_accept hb]
        rfl
  · rw [if_neg (fun hlt => hpos (harg.mp hlt))] at he
    obtain ⟨-, rfl⟩ : () = () ∧ s = s' := by simpa using he
    refine ⟨false, fun ptr type time ok r' hr => ?_⟩
    obtain ⟨-, rfl⟩ : false = ok ∧ r = r' := by
      simpa [DumpRing.tbmSurfaceInternalDumpShmBuffer, hpos] using hr
    exact hd

theorem startBufs_view {x : Answers} {size : Int32} {n : ℕ} {s s' : Store} {d : DumpInfo}
    (hd : s.dump = some d) (he : exec x (startBufs size.toInt n) s = some (true, s')) :
    ∃ bs : List Bo, bs.length = n ∧ (0 < n → 0 < size) ∧
      s'.dump = some { d with bufs := d.bufs ++ bs.map fun b => ⟨b, size.toInt⟩ } := by
  induction n generalizing s d with
  | zero =>
    obtain rfl : s = s' := by simpa [startBufs] using he
    refine ⟨[], rfl, fun hn => absurd hn (Nat.lt_irrefl 0), ?_⟩
    rw [hd, List.map_nil, List.append_nil]
  | succ n ih =>
    simp only [startBufs, exec_bind, exec_answer, Option.bind_some] at he
    split_ifs at he with hcalloc
    · simp only [exec_bind, exec_read, Option.bind_some, exec_onMgr] at he
      obtain ⟨⟨o, s₁⟩, ho, he⟩ := Option.bind_eq_some_iff.mp he
      obtain ⟨⟨o', m⟩, halloc, hmgr⟩ := Option.map_eq_some_iff.mp ho
      obtain ⟨rfl, rfl⟩ := Prod.mk.inj hmgr
      cases o' with
      | none => simp at he
      | some b =>
        obtain ⟨k, -, hpos, -⟩ := tbmBoAlloc_exec halloc
        have hd₁ : (s.setMgr m).dump = some d := hd
        simp only [exec_bind, onDump, exec_access, hd₁, Option.bind_eq_bind,
          Option.bind_some] at he
        obtain ⟨bs, hlen, -, hs'⟩ := ih (d := { d with bufs := d.bufs ++ [⟨b, size.toInt⟩] }) rfl he
        refine ⟨b :: bs, by rw [List.length_cons, hlen], fun _ => ?_, ?_⟩
        · exact Int32.lt_iff_toInt_lt.mpr hpos
        · rw [hs', List.append_assoc, List.map_cons]
          rfl
    · simp at he

theorem createSlots_view {y : StartAnswers} {size : Int32} {bs : List Bo} {n : ℕ}
    (hslot : ∀ i, y.slot i = true) (hbo : ∀ i, y.bo i = bs[i]?) (hsize : 0 < n → 0 < size)
    (hlen : r.slots.length + n = bs.length) :
    ∃ t, createSlots y size n r = some t ∧ t.link = r.link ∧ t.slots.map DumpSlot.buf =
      r.slots.map DumpSlot.buf ++ (bs.drop r.slots.length).map fun b => ⟨b, size.toInt⟩ := by
  induction n generalizing r with
  | zero =>
    refine ⟨r, rfl, rfl, ?_⟩
    rw [List.drop_eq_nil_of_le (by omega), List.map_nil, List.append_nil]
  | succ n ih =>
    have hlt : r.slots.length < bs.length := by omega
    have ha : y.alloc size r.slots.length = some bs[r.slots.length] := by
      unfold StartAnswers.alloc
      rw [if_pos (hsize (Nat.succ_pos n)), hbo, List.getElem?_eq_getElem hlt]
    have hadd : (r.addSlot (.new bs[r.slots.length] size (y.bytes r.slots.length))).slots =
        r.slots ++ [.new bs[r.slots.length] size (y.bytes r.slots.length)] := rfl
    obtain ⟨t, ht, hlink, hbufs⟩ := ih
      (r := r.addSlot (.new bs[r.slots.length] size (y.bytes r.slots.length)))
      (fun _ => hsize (Nat.succ_pos n)) (by
        rw [hadd, List.length_append, List.length_singleton]
        omega)
    refine ⟨t, ?_, hlink, ?_⟩
    · unfold createSlots
      rw [if_pos (hslot _), ha]
      exact ht
    · rw [hbufs, hadd, List.length_append, List.length_singleton, List.map_append,
        List.append_assoc, List.drop_eq_getElem_cons hlt, List.map_cons]
      rfl

theorem fillDump_view {backend : Backend} {x : Answers} {size : Int32} {n : ℕ} {s s' : Store}
    {d : DumpInfo} (hd : s.dump = some ⟨[], none⟩)
    (he : exec x (fillDump backend size.toInt n) s = some ((), s')) (hd' : s'.dump = some d) :
    ∃ bs : List Bo, bs.length = n ∧ (0 < n → 0 < size) ∧
      d = ⟨bs.map fun b => ⟨b, size.toInt⟩, some 0⟩ := by
  simp only [fillDump, exec_bind] at he
  obtain ⟨⟨ok, s₁⟩, hfill, he⟩ := Option.bind_eq_some_iff.mp he
  cases ok with
  | true =>
    obtain ⟨bs, hlen, hpos, hd₁⟩ := startBufs_view hd hfill
    refine ⟨bs, hlen, hpos, ?_⟩
    simp only [if_true, onDump, exec_access, hd₁, Option.bind_eq_bind, Option.bind_some,
      Option.some.injEq, Prod.mk.injEq, true_and] at he
    rw [← he] at hd'
    exact (Option.some.inj hd').symm
  | false =>
    simp only [Bool.false_eq_true, if_false, exec_bind] at he
    obtain ⟨⟨bufs, s₂⟩, -, he⟩ := Option.bind_eq_some_iff.mp he
    obtain ⟨⟨u, s₃⟩, -, he⟩ := Option.bind_eq_some_iff.mp he
    obtain rfl : { s₃ with dump := none } = s' := by simpa [endDump] using he
    cases hd'

/-- What is in progress after a start is what the answers of the manager lead to. -/
theorem dumpStart_view {backend : Backend} {me : ℕ} {x : Answers} {s s' : Store}
    {w ht count : Int32} {path : String} {d : DumpInfo} (hd : s.dump = none)
    (he : exec x (tbmSurfaceInternalDumpStart backend me true w.toInt ht.toInt count.toInt) s =
      some ((), s')) (hd' : s'.dump = some d) :
    ∃ y r, DumpRing.tbmSurfaceInternalDumpStart y (some path) w ht count = some r ∧
      r.view = d := by
  unfold tbmSurfaceInternalDumpStart at he
  split_ifs at he with harg
  · simp only [exec_bind, exec_read, Option.bind_some, hd, Option.isSome_none, if_false,
      Bool.false_eq_true, exec_answer] at he
    split_ifs at he with hcalloc
    · simp only [exec_bind, exec_modify, Option.bind_some] at he
      obtain ⟨⟨o, s₁⟩, hcreate, he⟩ := Option.bind_eq_some_iff.mp he
      have hd₁ : s₁.dump = some ⟨[], none⟩ := onMgr_dump hcreate
      cases o with
      | none =>
        obtain rfl : { s₁ with dump := none } = s' := by simpa [endDump] using he
        cases hd'
      | some t =>
        simp only [exec_bind] at he
        obtain ⟨⟨map, s₂⟩, hmap, he⟩ := Option.bind_eq_some_iff.mp he
        have hd₂ : s₂.dump = some ⟨[], none⟩ := (onMgr_dump hmap).trans hd₁
        cases map with
        | none =>
          simp only [exec_bind] at he
          obtain ⟨⟨u, s₃⟩, -, he⟩ := Option.bind_eq_some_iff.mp he
          obtain rfl : { s₃ with dump := none } = s' := by simpa [endDump] using he
          cases hd'
        | some info =>
          simp only [exec_bind] at he
          obtain ⟨⟨u, s₃⟩, hunmap, he⟩ := Option.bind_eq_some_iff.mp he
          obtain ⟨⟨v, s₄⟩, hdestroy, he⟩ := Option.bind_eq_some_iff.mp he
          have hd₄ : s₄.dump = some ⟨[], none⟩ :=
            (onMgr_dump hdestroy).trans ((onMgr_dump hunmap).trans hd₂)
          have hsize : UInt32.ofInt ht.toInt = ht.toUInt32 := ofInt_toInt ht
          rw [hsize] at he
          obtain ⟨bs, hlen, hpos, rfl⟩ := fillDump_view hd₄ he hd'
          let y : StartAnswers :=
            { calloc := true, surface := true, map := some info, slot := fun _ => true
              bo := fun i => bs[i]?, bytes := fun _ _ => 0 }
          obtain ⟨r, hr, hlink, hbufs⟩ := createSlots_view (r := .new path) (y := y)
            (fun _ => rfl) (fun _ => rfl) hpos (by rw [hlen]; exact Nat.zero_add _)
          refine ⟨y, r, ?_, ?_⟩
          · have hcount : 0 < w ∧ 0 < ht ∧ 0 < count := by
              simp only [Int32.lt_iff_toInt_lt]
              exact harg.2
            unfold DumpRing.tbmSurfaceInternalDumpStart
            simp only
            rw [if_pos hcount, if_pos ⟨rfl, rfl, rfl⟩]
            exact hr
          · unfold DumpRing.view
            rw [hbufs, hlink]
            rfl
    · obtain rfl : s = s' := by simpa using he
      rw [hd] at hd'
      cases hd'
  · obtain rfl : s = s' := by simpa using he
    rw [hd] at hd'
    cases hd'

end Tbm.Bufmgr
