import Tbm.Core.Program

/-! Programs that work on a part of the data. -/
namespace Tbm.Prog

variable {M C E I S T α β : Type} (get : T → S) (set : T → S → T)

/-- The program with every access made to the part of the data that `get` and `set` show. -/
def zoom : Prog M C E I S α → Prog M C E I T α
  | ret a => ret a
  | lock m k => lock m k.zoom
  | unlock m k => unlock m k.zoom
  | wait c m k => wait c m k.zoom
  | signal c k => signal c k.zoom
  | emit e k => emit e k.zoom
  | input k => input fun x => (k x).zoom
  | act f k => act (fun t => (f (get t)).map fun r => (r.1, set t r.2)) fun b => (k b).zoom

@[simp] theorem zoom_bind (p : Prog M C E I S α) (f : α → Prog M C E I S β) :
    (p >>= f).zoom get set = p.zoom get set >>= fun a => (f a).zoom get set := by
  change (p.bind f).zoom get set = (p.zoom get set).bind fun a => (f a).zoom get set
  induction p with
  | ret a => rfl
  | lock m k ih => exact congrArg (lock m) ih
  | unlock m k ih => exact congrArg (unlock m) ih
  | wait c m k ih => exact congrArg (wait c m) ih
  | signal c k ih => exact congrArg (signal c) ih
  | emit e k ih => exact congrArg (emit e) ih
  | input k ih => exact congrArg input (funext ih)
  | act h k ih => exact congrArg (act _) (funext ih)

/-- It runs as the program does on that part, and leaves the rest alone. -/
theorem exec_zoom (hget : ∀ t s, get (set t s) = s)
    (hset : ∀ t, set t (get t) = t) (hsets : ∀ t s s', set (set t s) s' = set t s') (x : I)
    (p : Prog M C E I S α) (t : T) :
    exec x (p.zoom get set) t = (exec x p (get t)).map fun r => (r.1, set t r.2) := by
  induction p generalizing t with
  | ret a =>
    show some (a, t) = some (a, set t (get t))
    rw [hset]
  | lock m k ih => exact ih t
  | unlock m k ih => exact ih t
  | wait c m k ih => exact ih t
  | signal c k ih => exact ih t
  | emit e k ih => exact ih t
  | input k ih => exact ih x t
  | act f k ih =>
    simp only [zoom, exec]
    cases hf : f (get t) with
    | none => rfl
    | some r =>
      rw [Option.map_some, Option.bind_some, Option.bind_some, ih, hget]
      simp only [hsets]

end Tbm.Prog
