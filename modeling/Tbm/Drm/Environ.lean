import Tbm.Core.Runs
import Tbm.Core.Strings
import Mathlib.Algebra.Group.Int.Defs
import Mathlib.Algebra.GroupWithZero.Nat
import Mathlib.Logic.Function.Basic

/-! Descriptors that are handed on by their numbers, in variables of the environment. -/
namespace Tbm.Drm

open Runs

inductive Var
  | tbmDrmFd | tbmDrmMasterFd | tdmDrmMasterFd
  deriving DecidableEq, Repr

/-- What a descriptor refers to, and its `FD_CLOEXEC`. -/
structure Descriptor where
  file : ℕ
  cloexec : Bool
  deriving DecidableEq, Repr

@[ext] structure Environ where
  env : Var → Option (List Char)
  fds : ℤ → Option Descriptor

def InInt (n : ℤ) : Prop := -2 ^ 31 ≤ n ∧ n < 2 ^ 31

instance (n : ℤ) : Decidable (InInt n) := inferInstanceAs (Decidable (_ ∧ _))

namespace Environ

variable (p : Environ)

/-- What the two setters do; `ok` is whether `setenv` succeeds. -/
def setVar (v : Var) (fd : ℤ) (ok : Bool) : Environ :=
  let buf := snprintf 32 (decimal fd)
  if ok then { p with env := Function.update p.env v (some buf) } else p

def unsetVar (v : Var) (ok : Bool) : Environ :=
  if ok then { p with env := Function.update p.env v none } else p

/-- What the two getters do; `dup` is the descriptor that `dup` returns. A number that is no `int`
is not converted. -/
def getVar (v : Var) (dup : Option ℤ) : Option (ℤ × Environ) :=
  match p.env v with
  | none => some (-1, p)
  | some value =>
    match scanDecimal value with
    | none => some (-1, p)
    | some fd =>
      if InInt fd then
        match p.fds fd, dup with
        | some d, some newFd =>
          some (newFd, { p with fds := Function.update p.fds newFd (some ⟨d.file, true⟩) })
        | _, _ => some (-1, p)
      else none

def tbmDrmHelperSetFd (fd : ℤ) (ok : Bool) : Environ := p.setVar .tbmDrmFd fd ok

def tbmDrmHelperUnsetFd (ok : Bool) : Environ := p.unsetVar .tbmDrmFd ok

def tbmDrmHelperGetFd (dup : Option ℤ) : Option (ℤ × Environ) := p.getVar .tbmDrmFd dup

def tbmDrmHelperSetTbmMasterFd (fd : ℤ) (ok : Bool) : Environ := p.setVar .tbmDrmMasterFd fd ok

def tbmDrmHelperUnsetTbmMasterFd (ok : Bool) : Environ := p.unsetVar .tbmDrmMasterFd ok

/-- It reads another variable than `tbm_drm_helper_set_tbm_master_fd` writes. -/
def tbmDrmHelperGetMasterFd (dup : Option ℤ) : Option (ℤ × Environ) := p.getVar .tdmDrmMasterFd dup

end Environ

/-- The calls, and what the process does with its variables and descriptors itself. -/
inductive EnvOp
  | setFd (fd : ℤ) (ok : Bool)
  | unsetFd (ok : Bool)
  | getFd (dup : Option ℤ)
  | setTbmMasterFd (fd : ℤ) (ok : Bool)
  | unsetTbmMasterFd (ok : Bool)
  | getMasterFd (dup : Option ℤ)
  | setenv (v : Var) (value : Option (List Char))
  | descriptor (fd : ℤ) (d : Option Descriptor)

namespace Environ

def step : EnvOp → Environ → Option (ℤ × Environ)
  | .setFd fd ok, p => some (0, p.tbmDrmHelperSetFd fd ok)
  | .unsetFd ok, p => some (0, p.tbmDrmHelperUnsetFd ok)
  | .getFd dup, p => p.tbmDrmHelperGetFd dup
  | .setTbmMasterFd fd ok, p => some (0, p.tbmDrmHelperSetTbmMasterFd fd ok)
  | .unsetTbmMasterFd ok, p => some (0, p.tbmDrmHelperUnsetTbmMasterFd ok)
  | .getMasterFd dup, p => p.tbmDrmHelperGetMasterFd dup
  | .setenv v value, p => some (0, { p with env := Function.update p.env v value })
  | .descriptor fd d, p => some (0, { p with fds := Function.update p.fds fd d })

variable (p : Environ)

/-- What a variable holds is the number of an `int`, if it is a number. -/
def Readable (v : Var) : Prop := ∀ s ∈ p.env v, ∀ n ∈ scanDecimal s, InInt n

instance (v : Var) : Decidable (p.Readable v) :=
  inferInstanceAs (Decidable (∀ s ∈ p.env v, ∀ n ∈ scanDecimal s, InInt n))

/-- Descriptors are `int`s, `dup` returns a new one, and nobody else writes `TBM_DRM_FD`. -/
def Sane : EnvOp → Prop
  | .setFd fd _ => InInt fd
  | .getFd dup => ∀ n ∈ dup, 0 ≤ n ∧ p.fds n = none
  | .getMasterFd dup => p.Readable .tdmDrmMasterFd ∧ ∀ n ∈ dup, 0 ≤ n ∧ p.fds n = none
  | .setenv v _ => v ≠ .tbmDrmFd
  | .unsetFd _ | .setTbmMasterFd _ _ | .unsetTbmMasterFd _ | .descriptor _ _ => True

instance : DecidablePred p.Sane
  | .setFd fd _ => inferInstanceAs (Decidable (InInt fd))
  | .getFd dup => inferInstanceAs (Decidable (∀ n ∈ dup, 0 ≤ n ∧ p.fds n = none))
  | .getMasterFd dup => inferInstanceAs
    (Decidable (p.Readable .tdmDrmMasterFd ∧ ∀ n ∈ dup, 0 ≤ n ∧ p.fds n = none))
  | .setenv v _ => inferInstanceAs (Decidable (v ≠ .tbmDrmFd))
  | .unsetFd _ | .setTbmMasterFd _ _ | .unsetTbmMasterFd _ | .descriptor _ _ => isTrue trivial

end Environ

section Register

abbrev EnvLog := List (Entry Environ EnvOp ℤ)

/-- The descriptor of the last `tbm_drm_helper_set_fd` that has succeeded, up to the next
`tbm_drm_helper_unset_fd`. -/
def enroll (reg : Option ℤ) (e : Entry Environ EnvOp ℤ) : Option ℤ :=
  match e.call with
  | .setFd fd true => some fd
  | .unsetFd true => none
  | _ => reg

def register (log : EnvLog) : Option ℤ := log.foldl enroll none

/-- The process has put something into `TDM_DRM_MASTER_FD` itself. -/
def MasterWritten (log : EnvLog) : Prop :=
  ∃ e ∈ log, ∃ value, e.call = .setenv .tdmDrmMasterFd value

/-- A call returns a new descriptor for what `reg` refers to, closed on exec, or fails and changes
nothing. -/
def Duplicates (reg dup : Option ℤ) (e : Entry Environ EnvOp ℤ) : Prop :=
  (∃ fd d n, reg = some fd ∧ e.before.fds fd = some d ∧ dup = some n ∧ e.reply = n ∧
    e.after = { e.before with fds := Function.update e.before.fds n (some ⟨d.file, true⟩) }) ∨
  ((∀ fd ∈ reg, e.before.fds fd = none ∨ dup = none) ∧ e.reply = -1 ∧ e.after = e.before)

/-- The environment after some calls. -/
structure Enrolled (log : EnvLog) (p : Environ) : Prop where
  register : p.env .tbmDrmFd = (register log).map decimal
  inInt : ∀ fd ∈ Drm.register log, InInt fd
  master : ¬MasterWritten log → p.env .tdmDrmMasterFd = none
  fd : Each (fun log e => ∀ dup, e.call = .getFd dup → Duplicates (Drm.register log) dup e) log
  masterFd : Each (fun log e => ∀ dup, e.call = .getMasterFd dup → ¬MasterWritten log →
    e.reply = -1 ∧ e.after = e.before) log

variable {log : EnvLog} {p : Environ} {v : Var} {dup : Option ℤ} {n : ℤ}

theorem snprintf_decimal (h : InInt n) : snprintf 32 (decimal n) = decimal n := by
  apply snprintf_eq
  have hlen := length_decimal (n := n) (by
    obtain ⟨hlo, hhi⟩ := h
    omega)
  omega

/-- A number that a setter has written is read back. -/
theorem getVar_decimal (h : p.env v = some (decimal n)) (hn : InInt n) (dup : Option ℤ) :
    ∃ r p', p.getVar v dup = some (r, p') ∧
      ∀ op, Duplicates (some n) dup ⟨p, op, r, p'⟩ := by
  unfold Environ.getVar
  rw [h]
  simp only [scanDecimal_decimal, if_pos hn]
  cases hd : p.fds n with
  | none =>
    exact ⟨-1, p, rfl, fun _ => .inr ⟨by simp [hd], rfl, rfl⟩⟩
  | some d =>
    cases dup with
    | none => exact ⟨-1, p, rfl, fun _ => .inr ⟨by simp, rfl, rfl⟩⟩
    | some m => exact ⟨m, _, rfl, fun _ => .inl ⟨n, d, m, rfl, hd, rfl, rfl, rfl⟩⟩

theorem Enrolled.concat (h : Enrolled log p) {e : Entry Environ EnvOp ℤ} {p' : Environ}
    (hreg : p'.env .tbmDrmFd = (enroll (Drm.register log) e).map decimal)
    (hint : ∀ fd ∈ enroll (Drm.register log) e, InInt fd)
    (hmaster : p'.env .tdmDrmMasterFd = p.env .tdmDrmMasterFd ∨
      ∃ value, e.call = .setenv .tdmDrmMasterFd value)
    (hfd : ∀ dup, e.call = .getFd dup → Duplicates (Drm.register log) dup e)
    (hmfd : ∀ dup, e.call = .getMasterFd dup → ¬MasterWritten log →
      e.reply = -1 ∧ e.after = e.before) : Enrolled (log ++ [e]) p' := by
  have hfold : Drm.register (log ++ [e]) = enroll (Drm.register log) e := by
    unfold Drm.register
    rw [List.foldl_append]
    rfl
  refine ⟨by rw [hfold, hreg], by rwa [hfold], fun hno => ?_, h.fd.concat hfd,
    h.masterFd.concat hmfd⟩
  have hold : ¬MasterWritten log := fun ⟨d, hd, hv⟩ => hno ⟨d, List.mem_append_left _ hd, hv⟩
  rcases hmaster with hm | hm
  · rw [hm, h.master hold]
  · exact absurd ⟨e, by simp, hm⟩ hno

theorem getVar_none (h : p.env v = none) (dup : Option ℤ) : p.getVar v dup = some (-1, p) := by
  rw [Environ.getVar, h]

theorem getVar_env {r : ℤ} {p' : Environ} (h : p.getVar v dup = some (r, p')) : p'.env = p.env := by
  unfold Environ.getVar at h
  split at h
  · obtain ⟨-, rfl⟩ : -1 = r ∧ p = p' := by simpa using h
    rfl
  · split at h
    · obtain ⟨-, rfl⟩ : -1 = r ∧ p = p' := by simpa using h
      rfl
    · split_ifs at h
      split at h
      · obtain ⟨-, rfl⟩ := Prod.mk.inj (Option.some.inj h)
        rfl
      · obtain ⟨-, rfl⟩ : -1 = r ∧ p = p' := by simpa using h
        rfl

theorem getVar_isSome (h : p.Readable v) (dup : Option ℤ) : (p.getVar v dup).isSome := by
  unfold Environ.getVar
  cases hv : p.env v with
  | none => rfl
  | some s =>
    cases hn : scanDecimal s with
    | none => simp [hn]
    | some n =>
      simp only [hn, if_pos (h s hv n hn)]
      split <;> rfl

theorem Enrolled.step {op : EnvOp} (h : Enrolled log p) (hs : p.Sane op) :
    ∃ r p', Environ.step op p = some (r, p') ∧ Enrolled (log ++ [⟨p, op, r, p'⟩]) p' := by
  have hreg := h.register
  cases op with
  | setFd fd ok =>
    refine ⟨_, _, rfl, ?_⟩
    cases ok with
    | true =>
      refine h.concat ?_ ?_ (.inl rfl) (by simp) (by simp)
      · simp [Environ.tbmDrmHelperSetFd, Environ.setVar, snprintf_decimal hs, enroll]
      · intro n hn
        obtain rfl := Option.some.inj hn
        exact hs
    | false => exact h.concat hreg h.inInt (.inl rfl) (by simp) (by simp)
  | unsetFd ok =>
    refine ⟨_, _, rfl, ?_⟩
    cases ok with
    | true =>
      refine h.concat ?_ ?_ (.inl rfl) (by simp) (by simp)
      · simp [Environ.tbmDrmHelperUnsetFd, Environ.unsetVar, enroll]
      · simp [enroll]
    | false => exact h.concat hreg h.inInt (.inl rfl) (by simp) (by simp)
  | getFd dup =>
    obtain ⟨r, p', he, hd⟩ : ∃ r p', p.getVar .tbmDrmFd dup = some (r, p') ∧
        Duplicates (Drm.register log) dup ⟨p, .getFd dup, r, p'⟩ := by
      cases hlog : Drm.register log with
      | none =>
        rw [hlog] at hreg
        exact ⟨-1, p, getVar_none hreg dup, .inr ⟨by simp, rfl, rfl⟩⟩
      | some fd =>
        rw [hlog] at hreg
        obtain ⟨r, p', he, hd⟩ := getVar_decimal hreg (h.inInt fd hlog) dup
        exact ⟨r, p', he, hd _⟩
    have henv := getVar_env he
    refine ⟨r, p', he, h.concat ?_ h.inInt (.inl (by rw [henv])) ?_ (by simp)⟩
    · rw [henv]
      exact hreg
    · intro dup' hdup
      obtain rfl := EnvOp.getFd.inj hdup
      exact hd
  | setTbmMasterFd fd ok =>
    refine ⟨_, _, rfl, ?_⟩
    cases ok <;> exact h.concat hreg h.inInt (.inl rfl) (by simp) (by simp)
  | unsetTbmMasterFd ok =>
    refine ⟨_, _, rfl, ?_⟩
    cases ok <;> exact h.concat hreg h.inInt (.inl rfl) (by simp) (by simp)
  | getMasterFd dup =>
    obtain ⟨⟨r, p'⟩, he⟩ := Option.isSome_iff_exists.mp (getVar_isSome hs.1 dup)
    have henv := getVar_env he
    refine ⟨r, p', he, h.concat ?_ h.inInt (.inl (by rw [henv])) (by simp) fun dup' hdup hno => ?_⟩
    · rw [henv]
      exact hreg
    · obtain ⟨rfl, rfl⟩ : -1 = r ∧ p = p' := by
        simpa [getVar_none (h.master hno)] using he
      exact ⟨rfl, rfl⟩
  | setenv v value =>
    refine ⟨_, _, rfl, h.concat ?_ h.inInt ?_ (by simp) (by simp)⟩
    · simp only [Function.update_of_ne (Ne.symm hs)]
      exact hreg
    · cases v with
      | tdmDrmMasterFd => exact .inr ⟨value, rfl⟩
      | tbmDrmFd | tbmDrmMasterFd => exact .inl rfl
  | descriptor fd d => exact ⟨_, _, rfl, h.concat hreg h.inInt (.inl rfl) (by simp) (by simp)⟩

/-- A process that has no such variables. -/
def Environ.initial (fds : ℤ → Option Descriptor) : Environ := ⟨fun _ => none, fds⟩

/-- In any run `tbm_drm_helper_get_fd` duplicates what `tbm_drm_helper_set_fd` was last given, while
it is open; `tbm_drm_helper_get_master_fd` finds nothing of what
`tbm_drm_helper_set_tbm_master_fd` was given. -/
theorem drm_fd_register {fds : ℤ → Option Descriptor} {ops : List EnvOp}
    (hp : Permitted Environ.step Environ.Sane ops (.initial fds)) :
    ∃ log p, run Environ.step ops (.initial fds) = some (log, p) ∧ Enrolled log p :=
  run_total Enrolled ⟨rfl, by simp [register], fun _ => rfl, each_nil, each_nil⟩
    (fun _ _ _ h hs => h.step hs) hp

/-- A descriptor that is handed on, one that is closed, and a master that is asked for in vain. -/
private def handedOn : List EnvOp :=
  [.getFd (some 9), .setFd 3 true, .setFd 4 false, .getFd (some 9), .setTbmMasterFd 3 true,
    .getMasterFd (some 10), .descriptor 3 none, .getFd (some 11), .unsetFd true]

private def oneOpen (n : ℤ) : Option Descriptor := if n = 3 then some ⟨5, false⟩ else none

theorem drm_fd_register_handedOn : ∃ log p,
    run Environ.step handedOn (.initial oneOpen) = some (log, p) ∧ Enrolled log p ∧
    log.map (·.reply) = [-1, 0, 0, 9, 0, -1, 0, -1, 0] ∧ p.fds 9 = some ⟨5, true⟩ := by
  have hp : Permitted Environ.step Environ.Sane handedOn (.initial oneOpen) := by decide +kernel
  obtain ⟨log, p, hr, h⟩ := drm_fd_register hp
  have hreplies : ((run Environ.step handedOn (.initial oneOpen)).map fun r =>
      (r.1.map (·.reply), r.2.fds 9)) =
      some ([-1, 0, 0, 9, 0, -1, 0, -1, 0], some ⟨5, true⟩) := by decide +kernel
  rw [hr] at hreplies
  obtain ⟨h₁, h₂⟩ := Prod.mk.inj (Option.some.inj hreplies)
  exact ⟨log, p, hr, h, h₁, h₂⟩

end Register

end Tbm.Drm
