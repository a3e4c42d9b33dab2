import Tbm.Bufmgr.UserData

/-! The user data of a buffer object beside those of a surface that gets the same calls. -/
namespace Tbm.Bufmgr

open Runs

/-- What is seen of corresponding calls: the result, the calls of free functions so far, and what
is left in the place for the answer, whatever was there. -/
structure Agree (e e' : DataEntry) : Prop where
  call : e.call = e'.call
  ret : e.reply.ret = e'.reply.ret
  freed : e.before.freed = e'.before.freed ∧ e.after.freed = e'.after.freed
  out : ∀ key, e.call = .get key true → ∀ held, e.reply.out.getD held = e'.reply.out.getD held

/-- A question to an owner without user data. -/
def Owner.unasked (o : Owner) : DataCall → Bool
  | .get _ true => !o.live || !o.userData.isEmpty
  | _ => true

/-- Both kinds of owner go as long as there are references. -/
def Owner.Referenced (o : Owner) : Prop := o.live = true → 0 < o.refCnt

section Steps

variable {o : Owner} {c : DataCall}

theorem Owner.unref_eq (h : o.Referenced) : o.tbmBoUnref = o.tbmSurfaceInternalUnref := by
  unfold tbmBoUnref tbmSurfaceInternalUnref
  by_cases hl : o.live
  · have hpos := h hl
    rw [if_pos hl, if_pos hl, if_neg (by omega)]
    by_cases h1 : o.refCnt - 1 = 0
    · simp only [h1, Int.lt_irrefl, if_true, if_false]
    · have h2 : 0 < o.refCnt - 1 := by omega
      simp only [h1, h2, if_true, if_false]
  · rw [if_neg hl, if_neg hl]

theorem Owner.getUserData_ret (o : Owner) (key : UInt64) (out : Bool) :
    (o.tbmBoGetUserData key out).1 = (o.tbmSurfaceInternalGetUserData key out).1 := by
  unfold tbmBoGetUserData tbmSurfaceInternalGetUserData
  cases o.live with
  | false => rfl
  | true =>
    cases out with
    | false => rfl
    | true =>
      cases hd : o.userData with
      | nil => rfl
      | cons d l => rfl

/-- They leave the same in the place for the answer unless the list is empty. -/
theorem Owner.getUserData_out (o : Owner) (key : UInt64) :
    (∀ held, (o.tbmBoGetUserData key true).2.getD held =
      (o.tbmSurfaceInternalGetUserData key true).2.getD held) ↔
        o.unasked (.get key true) = true := by
  unfold tbmBoGetUserData tbmSurfaceInternalGetUserData unasked
  cases hl : o.live with
  | false => simp
  | true =>
    cases hd : o.userData with
    | cons d l => simp
    | nil =>
      constructor
      · intro h
        have hkept := h (some 0)
        simp [userDataLookup] at hkept
      · intro h
        simp at h

theorem Owner.unref_referenced (h : o.Referenced) : o.tbmSurfaceInternalUnref.Referenced := by
  unfold tbmSurfaceInternalUnref
  by_cases hl : o.live
  · have hpos := h hl
    rw [if_pos hl]
    by_cases h1 : 0 < o.refCnt - 1
    · rw [if_pos h1]
      exact fun _ => h1
    · have h0 : o.refCnt - 1 = 0 := by omega
      rw [if_neg h1, if_pos h0]
      intro hdead
      cases hdead
  · rw [if_neg hl]
    exact h

theorem Owner.ref_referenced (h : o.Referenced) : o.addRef.Referenced := by
  unfold addRef
  by_cases hl : o.live
  · have hpos := h hl
    rw [if_pos hl]
    intro _
    change 0 < o.refCnt + 1
    omega
  · rw [if_neg hl]
    exact h

theorem Owner.Referenced.mono {o' : Owner} (h : o.Referenced) (hl : o'.live = o.live)
    (hr : o'.refCnt = o.refCnt) : o'.Referenced := by
  intro hlive
  rw [hr]
  exact h (hl ▸ hlive)

theorem Owner.addUserData_referenced (h : o.Referenced) (ok : Bool) (key : UInt64)
    (f : Option FreeFunc) : (o.addUserData ok key f).2.Referenced := by
  unfold addUserData
  split_ifs
  · cases userDataLookup o.userData key with
    | some d => exact h
    | none => cases userDataCreate ok key f <;> exact h.mono rfl rfl
  · exact h

theorem Owner.setUserData_referenced (h : o.Referenced) (key : UInt64) (p : Option Ptr) :
    (o.tbmSurfaceInternalSetUserData key p).2.Referenced := by
  unfold tbmSurfaceInternalSetUserData
  split_ifs
  · cases userDataLookup o.userData key <;> exact h.mono rfl rfl
  · exact h

theorem Owner.deleteUserData_referenced (h : o.Referenced) (key : UInt64) :
    (o.tbmSurfaceInternalDeleteUserData key).2.Referenced := by
  unfold tbmSurfaceInternalDeleteUserData
  split_ifs
  · cases userDataLookup o.userData key <;> exact h.mono rfl rfl
  · exact h

/-- Calls that do the same to the same owner agree. -/
theorem Agree.refl (e : DataEntry) : Agree e e :=
  ⟨rfl, rfl, ⟨rfl, rfl⟩, fun _ _ _ => rfl⟩

/-- The same call on the same owner of either kind leaves the same owner, and what is seen of it is
the same unless it asks an owner without user data. -/
theorem Owner.step_alike (h : o.Referenced) (c : DataCall) : ∃ r r' o',
    o.step .bo c = some (r, o') ∧ o.step .surface c = some (r', o') ∧ o'.Referenced ∧
      (Agree ⟨o, c, r, o'⟩ ⟨o, c, r', o'⟩ ↔ o.unasked c = true) := by
  cases c with
  | add key f ok =>
    refine ⟨_, _, _, rfl, rfl, o.addUserData_referenced h ok key f, ?_⟩
    exact iff_of_true (Agree.refl _) rfl
  | set key p =>
    refine ⟨_, _, _, ?_, rfl, o.setUserData_referenced h key p, iff_of_true (Agree.refl _) rfl⟩
    rw [← tbmBoSetUserData_eq]
    rfl
  | get key out =>
    refine ⟨_, _, _, rfl, rfl, h, ?_⟩
    cases out with
    | false =>
      refine iff_of_true ?_ rfl
      exact ⟨rfl, o.getUserData_ret key false, ⟨rfl, rfl⟩, fun k hk => by cases hk⟩
    | true =>
      rw [← o.getUserData_out key]
      constructor
      · intro hagree
        exact hagree.out key rfl
      · intro hout
        exact ⟨rfl, o.getUserData_ret key true, ⟨rfl, rfl⟩, fun _ _ => hout⟩
  | delete key =>
    refine ⟨_, _, _, ?_, rfl, o.deleteUserData_referenced h key, iff_of_true (Agree.refl _) rfl⟩
    rw [← tbmBoDeleteUserData_eq]
    rfl
  | ref => exact ⟨_, _, _, rfl, rfl, o.ref_referenced h, iff_of_true (Agree.refl _) rfl⟩
  | unref =>
    refine ⟨_, _, _, ?_, rfl, o.unref_referenced h, iff_of_true (Agree.refl _) rfl⟩
    rw [← o.unref_eq h]
    rfl

end Steps

section Runs

theorem run_alike (cs : List DataCall) (o : Owner) (h : o.Referenced) : ∃ log log' t,
    run (Owner.step .bo) cs o = some (log, t) ∧ run (Owner.step .surface) cs o = some (log', t) ∧
      (List.Forall₂ Agree log log' ↔
        Permitted (Owner.step .surface) (fun o c => o.unasked c) cs o) := by
  induction cs generalizing o with
  | nil => exact ⟨[], [], o, rfl, rfl, iff_of_true .nil trivial⟩
  | cons c cs ih =>
    obtain ⟨r, r', o', hb, hs, h', hagree⟩ := o.step_alike h c
    obtain ⟨log, log', t, hbs, hss, hrest⟩ := ih o' h'
    refine ⟨⟨o, c, r, o'⟩ :: log, ⟨o, c, r', o'⟩ :: log', t, by simp [run, hb, hbs],
      by simp [run, hs, hss], ?_⟩
    have hp : Permitted (Owner.step .surface) (fun o c => o.unasked c) (c :: cs) o ↔
        o.unasked c = true ∧ Permitted (Owner.step .surface) (fun o c => o.unasked c) cs o' := by
      simp [Permitted, hs]
    rw [List.forall₂_cons, hp, hagree, hrest]

/-- The user data of a new buffer object and of a new surface agree over a run of calls just if no
call with a place for the answer asks for user data while there are none. -/
theorem user_data_agree (cs : List DataCall) : ∃ log log' t,
    run (Owner.step .bo) cs (.new 1) = some (log, t) ∧
      run (Owner.step .surface) cs (.new 1) = some (log', t) ∧
      (List.Forall₂ Agree log log' ↔
        Permitted (Owner.step .surface) (fun o c => o.unasked c) cs (.new 1)) :=
  run_alike cs (.new 1) fun _ => Int.one_pos

/-- The place for the answer keeps what it held with one kind of owner, and becomes NULL with the
other. -/
theorem user_data_differ : ∃ log log' t t',
    run (Owner.step .bo) [.get 1 true] (.new 1) = some (log, t) ∧
      run (Owner.step .surface) [.get 1 true] (.new 1) = some (log', t') ∧
      log.map (fun e => e.reply.out.getD (some 7)) = [some 7] ∧
      log'.map (fun e => e.reply.out.getD (some 7)) = [none] ∧ ¬List.Forall₂ Agree log log' := by
  refine ⟨_, _, _, _, rfl, rfl, rfl, rfl, fun h => ?_⟩
  obtain ⟨hagree, -⟩ := List.forall₂_cons.mp h
  have hkept := hagree.out 1 rfl (some 7)
  cases hkept

end Runs

end Tbm.Bufmgr
