import Tbm.Core.Runs
import Mathlib.Algebra.GroupWithZero.Nat
import Mathlib.Data.Int.Notation
import Mathlib.Data.Nat.Notation

/-! The side of a display server that lets its clients use the drm device. What it has to give back
is kept in a list, from which it is taken once. -/
namespace Tbm.Drm

open Runs

/-- Giving back what one has not got is undefined. -/
def giveBack {α : Type} [DecidableEq α] (a : α) (live : List α) : Option (List α) :=
  if a ∈ live then some (live.erase a) else none

@[simp] theorem giveBack_cons {α : Type} [DecidableEq α] (a : α) (l : List α) :
    giveBack a (a :: l) = some l := by
  simp [giveBack]

theorem giveBack_perm {α : Type} [DecidableEq α] {a : α} {l l' : List α} (h : l.Perm (a :: l')) :
    ∃ k, giveBack a l = some k ∧ k.Perm l' := by
  refine ⟨l.erase a, if_pos (h.mem_iff.mpr (.head _)), ?_⟩
  have he := h.erase a
  rwa [List.erase_cons_head] at he

inductive Errno
  | einval | eacces | other
  deriving DecidableEq, Repr

/-- What a request is answered with. -/
inductive Sent
  | info (deviceName : Option String) (capabilities : UInt32) (fd : ℕ)
  | error (message : String)
  deriving DecidableEq, Repr

inductive ServerItem
  | srv | deviceName | global | fd (n : ℕ)
  deriving DecidableEq, Repr

/-- `struct wayland_tbm_drm_auth_server`. -/
structure Server where
  deviceName : Option String
  fd : ℤ
  flags : UInt32
  global : Bool
  deriving DecidableEq, Repr

/-- What the kernel and libdrm answer while a request is served. -/
structure DrmAnswers where
  openFirst : Except Errno ℕ
  /-- Without `O_CLOEXEC`. -/
  openAgain : Option ℕ
  getMagic : Except Errno ℕ
  authMagic : ℤ → ℕ → Bool

structure InitAnswers where
  calloc : Bool
  strdup : Bool
  addSocket : Bool
  globalCreate : Bool

/-- The server process. A resource is known by the number of the server structure it points to;
those that were freed are not used again. -/
structure ServerProc where
  srv : Option Server
  srvs : ℕ
  resources : List ℕ
  live : List ServerItem

def openDevice (y : DrmAnswers) : Option ℕ :=
  match y.openFirst with
  | .ok fd => some fd
  | .error .einval => y.openAgain
  | .error _ => none

/-- What is sent for a device opened as `fd`. -/
def authReply (srv : Server) (y : DrmAnswers) : Option ℕ → Sent
  | none => .error "authenicate failed::open_drm"
  | some fd =>
    let auth (magic : ℕ) : Sent :=
      if y.authMagic srv.fd magic then .info srv.deviceName srv.flags fd
      else .error "authenicate failed::auth_magic"
    match y.getMagic with
    | .ok magic => auth magic
    -- The magic is still zero.
    | .error .eacces => auth 0
    | .error _ => .error "authenicate failed::get_magic"

def sendServerAuthInfo (srv : Server) (y : DrmAnswers) (live : List ServerItem) :
    Option (Sent × List ServerItem) :=
  let fd := openDevice y
  let sent := authReply srv y fd
  match fd with
  | none => some (sent, live)
  | some fd => (giveBack (.fd fd) (.fd fd :: live)).map (sent, ·)

/-- `free(device_name)`, where it is not NULL. -/
def freeName (deviceName : Option String) (live : List ServerItem) : Option (List ServerItem) :=
  if deviceName.isSome then giveBack .deviceName live else some live

/-- What a server structure is made of. -/
def Server.items (srv : Server) : List ServerItem :=
  (if srv.global then [.global] else []) ++
    ((if srv.deviceName.isSome then [.deviceName] else []) ++ [.srv])

inductive ServerOp
  | init (display : Bool) (fd : ℤ) (deviceName : Option String) (flags : UInt32) (x : InitAnswers)
  | deinit
  | bind (resource : Bool)
  | request (r : ℕ) (y : DrmAnswers)

inductive ServerReply
  | done
  | ret (ok : Bool)
  | sent (m : Sent)
  deriving DecidableEq, Repr

namespace ServerProc

def initial : ServerProc where
  srv := none
  srvs := 0
  resources := []
  live := []

variable (p : ServerProc)

/-- `display` is whether there is a display. -/
def tbmDrmHelperWlAuthServerInit (display : Bool) (fd : ℤ) (deviceName : Option String)
    (flags : UInt32) (x : InitAnswers) : Option (Bool × ServerProc) :=
  if p.srv.isSome then some (true, p)
  else if !display then some (false, p)
  else if !x.calloc then some (false, p)
  else do
    let name ← deviceName
    let copy := if x.strdup then some name else none
    let live := .srv :: p.live
    let live := if x.strdup then .deviceName :: live else live
    if !x.addSocket then do
      let live ← freeName copy live
      let live ← giveBack .srv live
      some (false, { p with live := live })
    else
      some (true, { p with
        srv := some ⟨copy, fd, flags, x.globalCreate⟩
        srvs := p.srvs + 1
        live := if x.globalCreate then .global :: live else live })

def tbmDrmHelperWlAuthServerDeinit : Option ServerProc :=
  match p.srv with
  | none => some p
  | some srv => do
    let live ← giveBack .global p.live
    let live ← freeName srv.deviceName live
    let live ← giveBack .srv live
    some { p with srv := none, live := live }

/-- `_wayland_tbm_drm_auth_server_bind_cb`, which is called while there is a global. -/
def bindCb (resource : Bool) : ServerProc :=
  if resource then { p with resources := p.srvs :: p.resources } else p

/-- A request on a resource that points to the `r`-th server structure. -/
def getAuthenticationInfo (r : ℕ) (y : DrmAnswers) : Option (Sent × ServerProc) :=
  match p.srv with
  | none => none
  | some srv =>
    if r = p.srvs then
      (sendServerAuthInfo srv y p.live).map fun s => (s.1, { p with live := s.2 })
    else none

def step : ServerOp → ServerProc → Option (ServerReply × ServerProc)
  | .init display fd deviceName flags x, p =>
    (p.tbmDrmHelperWlAuthServerInit display fd deviceName flags x).map fun r => (.ret r.1, r.2)
  | .deinit, p => p.tbmDrmHelperWlAuthServerDeinit.map (.done, ·)
  | .bind resource, p => some (.done, p.bindCb resource)
  | .request r y, p => (p.getAuthenticationInfo r y).map fun s => (.sent s.1, s.2)

/-- The device has a name, the global of a server that is taken down was created, and a request is
on a resource of the server that is there. -/
def Sane : ServerOp → Prop
  | .init _ _ deviceName _ _ => deviceName.isSome
  | .deinit => ∀ srv ∈ p.srv, srv.global
  | .bind _ => True
  | .request r _ => p.srv.isSome ∧ r ∈ p.resources ∧ r = p.srvs

instance : DecidablePred p.Sane
  | .init _ _ deviceName _ _ => inferInstanceAs (Decidable (deviceName.isSome = true))
  | .deinit => inferInstanceAs (Decidable (∀ srv ∈ p.srv, srv.global = true))
  | .bind _ => isTrue trivial
  | .request r _ => inferInstanceAs (Decidable (p.srv.isSome = true ∧ r ∈ p.resources ∧ r = p.srvs))

end ServerProc

open ServerProc

/-- The server lets the client use the device through `fd`. -/
def Authenticates (master : ℤ) (y : DrmAnswers) (fd : ℕ) : Prop :=
  openDevice y = some fd ∧ ∃ magic, y.authMagic master magic ∧
    (y.getMagic = .ok magic ∨ y.getMagic = .error .eacces ∧ magic = 0)

/-- Every descriptor that is opened for a request is closed. -/
theorem sendServerAuthInfo_eq (srv : Server) (y : DrmAnswers) (live : List ServerItem) :
    sendServerAuthInfo srv y live = some (authReply srv y (openDevice y), live) := by
  unfold sendServerAuthInfo
  cases openDevice y with
  | none => rfl
  | some fd => simp only [giveBack_cons, Option.map_some]

theorem authReply_info {srv : Server} {y : DrmAnswers} {name : Option String} {flags : UInt32}
    {fd : ℕ} : authReply srv y (openDevice y) = .info name flags fd ↔
      Authenticates srv.fd y fd ∧ name = srv.deviceName ∧ flags = srv.flags := by
  unfold Authenticates authReply
  cases openDevice y with
  | none => simp
  | some n =>
    simp only
    split
    next magic hm =>
      rw [hm]
      by_cases ha : y.authMagic srv.fd magic
      · simp only [ha, ↓reduceIte, Sent.info.injEq, Option.some.injEq, Except.ok.injEq,
          reduceCtorEq, false_and, or_false, exists_eq_right', and_true]
        grind
      · simp [ha]
    next hm =>
      rw [hm]
      by_cases ha : y.authMagic srv.fd 0
      · simp only [ha, ↓reduceIte, Sent.info.injEq, Option.some.injEq, reduceCtorEq, true_and,
          false_or, exists_eq_right, and_true]
        grind
      · simp [ha]
    next e he hm =>
      rw [hm]
      simp only [reduceCtorEq, Option.some.injEq, Except.error.injEq, false_or,
        exists_eq_right_right, false_iff, not_and, and_imp]
      grind

abbrev ServerLog := List (Entry ServerProc ServerOp ServerReply)

/-- The master descriptor, the device name and the flags. -/
def Server.config (srv : Server) : ℤ × Option String × UInt32 := (srv.fd, srv.deviceName, srv.flags)

/-- A successful `init` counts if there is none before it, up to the next `deinit`. -/
def configure (cfg : Option (ℤ × Option String × UInt32))
    (e : Entry ServerProc ServerOp ServerReply) : Option (ℤ × Option String × UInt32) :=
  match e.call, e.reply with
  | .init _ fd deviceName flags x, .ret true =>
    cfg.orElse fun _ => some (fd, if x.strdup then deviceName else none, flags)
  | .deinit, _ => none
  | _, _ => cfg

def configured (log : ServerLog) : Option (ℤ × Option String × UInt32) := log.foldl configure none

/-- A request is answered once, and with leave just if the kernel gives it. -/
def Answered (log : ServerLog) (r : ServerReply) (y : DrmAnswers) : Prop :=
  ∃ m cfg, r = .sent m ∧ configured log = some cfg ∧ ∀ name flags fd,
    m = .info name flags fd ↔ Authenticates cfg.1 y fd ∧ name = cfg.2.1 ∧ flags = cfg.2.2

/-- The server after some calls. -/
structure Serves (log : ServerLog) (p : ServerProc) : Prop where
  live : p.live = p.srv.elim [] Server.items
  config : p.srv.map Server.config = configured log
  answers : Each (fun log e => ∀ r y, e.call = .request r y → Answered log e.reply y) log

theorem Serves.concat {log : ServerLog} {p : ServerProc} (h : Serves log p)
    {e : Entry ServerProc ServerOp ServerReply} {p' : ServerProc}
    (hl : p'.live = p'.srv.elim [] Server.items)
    (hc : p'.srv.map Server.config = configure (configured log) e)
    (ha : ∀ r y, e.call = .request r y → Answered log e.reply y) : Serves (log ++ [e]) p' := by
  refine ⟨hl, ?_, h.answers.concat ha⟩
  rw [hc, configured, configured, List.foldl_append]
  rfl

theorem init_cases {p : ServerProc} (hs : p.srv = none) (display : Bool) (fd : ℤ) (name : String)
    (flags : UInt32) (x : InitAnswers) :
    p.tbmDrmHelperWlAuthServerInit display fd (some name) flags x = some (false, p) ∨
      ∃ srv : Server, srv.config = (fd, if x.strdup then some name else none, flags) ∧
        p.tbmDrmHelperWlAuthServerInit display fd (some name) flags x = some (true, { p with
          srv := some srv
          srvs := p.srvs + 1
          live := srv.items ++ p.live }) := by
  unfold ServerProc.tbmDrmHelperWlAuthServerInit
  rw [hs]
  by_cases hd : display
  swap
  · simp [hd]
  by_cases hc : x.calloc
  swap
  · simp [hc]
  by_cases ha : x.addSocket
  · right
    refine ⟨⟨if x.strdup then some name else none, fd, flags, x.globalCreate⟩, rfl, ?_⟩
    simp only [hd, hc, ha]
    cases x.strdup <;> cases x.globalCreate <;> rfl
  · left
    simp only [hd, hc, ha]
    cases x.strdup <;> simp [freeName, ← hs]

theorem deinit_eq {p : ServerProc} {srv : Server} (hs : p.srv = some srv) (hg : srv.global = true)
    (hl : p.live = srv.items) :
    p.tbmDrmHelperWlAuthServerDeinit = some { p with srv := none, live := [] } := by
  unfold ServerProc.tbmDrmHelperWlAuthServerDeinit
  rw [hs, hl, Server.items, hg]
  cases hn : srv.deviceName <;> simp [freeName, hn]

theorem getAuthenticationInfo_eq {p : ServerProc} {srv : Server} (hs : p.srv = some srv)
    (y : DrmAnswers) :
    p.getAuthenticationInfo p.srvs y = some (authReply srv y (openDevice y), p) := by
  rw [getAuthenticationInfo, hs]
  simp [sendServerAuthInfo_eq, ← hs]

theorem Serves.step {log : ServerLog} {p : ServerProc} {op : ServerOp} (h : Serves log p)
    (hs : p.Sane op) : ∃ r p', ServerProc.step op p = some (r, p') ∧
      Serves (log ++ [⟨p, op, r, p'⟩]) p' := by
  have hcfg := h.config
  have hlive := h.live
  cases op with
  | init display fd deviceName flags x =>
    obtain ⟨name, rfl⟩ := Option.isSome_iff_exists.mp hs
    cases hsrv : p.srv with
    | some srv =>
      refine ⟨.ret true, p, by simp [ServerProc.step,
        ServerProc.tbmDrmHelperWlAuthServerInit, hsrv], h.concat hlive ?_ (by simp)⟩
      rw [configure, ← hcfg, hsrv]
      rfl
    | none =>
      rcases init_cases hsrv display fd name flags x with he | ⟨srv, hconf, he⟩
      · exact ⟨.ret false, p, by rw [ServerProc.step, he]; rfl, h.concat hlive hcfg (by simp)⟩
      · refine ⟨_, _, by rw [ServerProc.step, he]; rfl, h.concat ?_ ?_ (by simp)⟩
        · simp [hlive, hsrv]
        · rw [configure, ← hcfg, hsrv, Option.map_some, hconf]
          rfl
  | deinit =>
    cases hsrv : p.srv with
    | none =>
      refine ⟨_, p, by rw [ServerProc.step, tbmDrmHelperWlAuthServerDeinit, hsrv]; rfl,
        h.concat hlive ?_ (by simp)⟩
      rw [hsrv]
      rfl
    | some srv =>
      rw [hsrv] at hlive
      have he := deinit_eq hsrv (hs srv hsrv) hlive
      exact ⟨_, _, by rw [ServerProc.step, he]; rfl, h.concat rfl rfl (by simp)⟩
  | bind resource =>
    refine ⟨_, _, rfl, ?_⟩
    unfold ServerProc.bindCb
    split_ifs <;> exact h.concat hlive hcfg (by simp)
  | request r y =>
    obtain ⟨hsome, -, rfl⟩ := hs
    obtain ⟨srv, hsrv⟩ := Option.isSome_iff_exists.mp hsome
    have hconf : configured log = some srv.config := by rw [← hcfg, hsrv]; rfl
    refine ⟨.sent (authReply srv y (openDevice y)), p, ?_, h.concat hlive hcfg fun r y' he => ?_⟩
    · rw [ServerProc.step, getAuthenticationInfo_eq hsrv]
      rfl
    · obtain ⟨-, rfl⟩ := ServerOp.request.inj he
      exact ⟨_, _, rfl, hconf, fun name flags fd => authReply_info⟩

/-- In any run of a server its structures are given back, the first `init` decides whom requests are
answered for, and each is answered once, with the descriptor just if the device could be opened and
the kernel has let it in. -/
theorem auth_server_run {ops : List ServerOp}
    (hp : Permitted ServerProc.step Sane ops .initial) :
    ∃ log p, run ServerProc.step ops .initial = some (log, p) ∧ Serves log p :=
  run_total Serves ⟨rfl, rfl, each_nil⟩ (fun _ _ _ h hs => h.step hs) hp

/-- The kernel opens the device as 7, and the master 3 may authenticate magic 5. -/
private def granting : DrmAnswers := ⟨.ok 7, none, .ok 5, fun fd magic => fd == 3 && magic == 5⟩

/-- A second `init` that changes nothing, requests that are granted and refused, a server that is
set up anew and one that gets no socket. -/
private def served : List ServerOp :=
  [.init true 3 (some "card0") 1 ⟨true, true, true, true⟩,
    .init true 4 (some "card1") 0 ⟨true, true, true, true⟩, .bind true, .request 1 granting,
    .request 1 { granting with getMagic := .error .eacces },
    .request 1 { granting with openFirst := .error .einval }, .deinit, .deinit,
    .init true 4 (some "card1") 0 ⟨true, true, true, true⟩, .bind true, .request 2 granting,
    .deinit,
    .init true 3 (some "card0") 1 ⟨true, true, false, true⟩]

theorem auth_server_run_served : ∃ log p,
    run ServerProc.step served .initial = some (log, p) ∧ Serves log p ∧
    log[3]?.map (·.reply) = some (.sent (.info (some "card0") 1 7)) := by
  have hp : Permitted ServerProc.step Sane served .initial := by decide +kernel
  obtain ⟨log, p, hr, hs⟩ := auth_server_run hp
  refine ⟨log, p, hr, hs, ?_⟩
  have hreply : ((run ServerProc.step served .initial).bind fun r => r.1[3]?.map (·.reply)) =
      some (.sent (.info (some "card0") 1 7)) := by decide +kernel
  rw [hr] at hreply
  exact hreply

end Tbm.Drm
