import Tbm.Drm.Client

/-! The two sides of the authentication together. -/
namespace Tbm.Drm

open Runs ServerProc

theorem Client.roundtrip_append (c : Client) (l l' : List Event) :
    c.roundtrip (l ++ l') = (c.roundtrip l).bind (·.roundtrip l') := by
  induction l generalizing c with
  | nil => rfl
  | cons e l ih =>
    rw [List.cons_append, Client.roundtrip, Client.roundtrip, Option.bind_assoc]
    simp only [ih]

/-- An object the client does not look for. -/
def Event.Other (e : Event) : Prop := ∃ i b, e = .global i b ∧ i ≠ "wl_tbm_drm_auth"

theorem Client.roundtrip_other (c : Client) {l : List Event} (h : ∀ e ∈ l, e.Other) :
    c.roundtrip l = some c := by
  induction l with
  | nil => rfl
  | cons e l ih =>
    obtain ⟨⟨i, b, rfl, hi⟩, hrest⟩ := List.forall_mem_cons.mp h
    rw [Client.roundtrip, Client.dispatch, Option.bind_some, handleGlobal, if_neg hi]
    exact ih hrest

/-- A server that offers one object to authenticate with. -/
def Announces (es : List Event) : Prop := ∃ l l',
  es = l ++ .global "wl_tbm_drm_auth" true :: l' ∧ ∀ e ∈ l ++ l', e.Other

/-- How what the server sends reaches the client: an event in the round trip after its request, with
a descriptor of the client's own; an error breaks the connection off. -/
def Delivers (es : List Event) (trip : Bool) : Sent → Prop
  | .info name flags _ => trip = true ∧ ∃ s n copied, name = some s ∧ 0 ≤ n ∧
      es = [.authenticationInfo name flags n copied]
  | .error _ => trip = false ∧ es = []

theorem roundtrip_announced {x : ClientAnswers} (h : Announces x.first) :
    Client.roundtrip ⟨false, -1, none, 0, [.registry, .display, .client]⟩ x.first =
      some ⟨true, -1, none, 0, [.auth, .registry, .display, .client]⟩ := by
  obtain ⟨l, l', he, hall⟩ := h
  rw [List.forall_mem_append] at hall
  rw [he, Client.roundtrip_append, Client.roundtrip_other _ hall.1, Option.bind_some,
    Client.roundtrip, Client.dispatch, Option.bind_some, Client.roundtrip_other _ hall.2]
  rfl

section Announced

variable {x : ClientAnswers} (hx : x.calloc ∧ x.connect ∧ x.getRegistry ∧ x.firstTrip)
  (hfirst : Announces x.first) (authFd device capabilities : Bool)

include hx hfirst

theorem tbmDrmHelperGetAuthInfo_announced :
    tbmDrmHelperGetAuthInfo x authFd device capabilities = (do
      let c ← Client.roundtrip ⟨true, -1, none, 0, [.auth, .registry, .display, .client]⟩ x.second
      if !x.secondTrip ∨ c.authFd < 0 then do
        let c ← c.destroyAuth
        c.fail
      else c.handOver x.strdup authFd device capabilities) := by
  obtain ⟨hcalloc, hconnect, hreg, htrip⟩ := hx
  unfold tbmDrmHelperGetAuthInfo
  simp only [hcalloc, hconnect, hreg, htrip, roundtrip_announced hfirst]
  rfl

theorem tbmDrmHelperGetAuthInfo_refused (htrip : x.secondTrip = false) (hnil : x.second = []) :
    tbmDrmHelperGetAuthInfo x authFd device capabilities = some (.failed, []) := by
  rw [tbmDrmHelperGetAuthInfo_announced hx hfirst, hnil, htrip]
  rfl

theorem tbmDrmHelperGetAuthInfo_informed {name : String} {flags : UInt32} {n : ℤ} {copied : Bool}
    (htrip : x.secondTrip = true) (hn : 0 ≤ n)
    (hes : x.second = [.authenticationInfo (some name) flags n copied]) :
    tbmDrmHelperGetAuthInfo x authFd device capabilities =
      some (⟨true, if authFd then some n else none,
        if device then some (if device && copied && x.strdup then some name else none) else none,
        if capabilities then some flags else none⟩,
        (if device && copied && x.strdup then [.copy] else []) ++
          if authFd then [.fd n] else []) := by
  have hneg : ¬n < 0 := Int.not_lt.mpr hn
  rw [tbmDrmHelperGetAuthInfo_announced hx hfirst, hes, htrip]
  simp only [Client.roundtrip, Client.dispatch, Client.handleAuthenticationInfo, if_pos hn]
  cases copied <;> cases x.strdup <;> cases authFd <;> cases device <;>
    simp [Client.handOver, Client.takeFd, Client.copyName, Client.destroyAuth, Client.freeDevice,
      Client.leave, Client.giveBack, Drm.giveBack, hneg]

end Announced

/-- What a client and a server that were connected come to: the client gets the descriptor just if
the kernel has authenticated it for the server, with the name and the flags the server was set up
with; else it fails. It keeps what it hands to its caller and nothing else. -/
theorem auth_session {ops : List ServerOp} {log : ServerLog} {p : ServerProc} {master : ℤ}
    {name : String} {flags : UInt32} {y : DrmAnswers} {m : Sent} {p' : ServerProc}
    {x : ClientAnswers} (hp : Permitted ServerProc.step Sane ops .initial)
    (hr : run ServerProc.step ops .initial = some (log, p))
    (hc : configured log = some (master, some name, flags))
    (hm : p.getAuthenticationInfo p.srvs y = some (m, p'))
    (hx : x.calloc ∧ x.connect ∧ x.getRegistry ∧ x.firstTrip) (hfirst : Announces x.first)
    (hsecond : Delivers x.second x.secondTrip m) (authFd device capabilities : Bool) :
    ∃ r live, tbmDrmHelperGetAuthInfo x authFd device capabilities = some (r, live) ∧
      p'.live = p.live ∧
      (r.ret = true ↔ ∃ fd, Authenticates master y fd) ∧
      (∀ c ∈ r.capabilities, c = flags) ∧ (∀ s ∈ r.device, ∀ d ∈ s, d = name) ∧
      live = (if r.device.any Option.isSome then [.copy] else []) ++
        r.authFd.toList.map ClientItem.fd := by
  obtain ⟨_, _, hr', hs⟩ := auth_server_run hp
  obtain ⟨rfl, rfl⟩ : log = _ ∧ p = _ := by simpa using hr.symm.trans hr'
  obtain ⟨srv, hsrv, hconf⟩ := Option.map_eq_some_iff.mp (hs.config.trans hc)
  obtain ⟨rfl, hname, rfl⟩ : srv.fd = master ∧ srv.deviceName = some name ∧ srv.flags = flags := by
    simpa [Server.config] using hconf
  rw [getAuthenticationInfo_eq hsrv] at hm
  obtain ⟨rfl, rfl⟩ := Prod.mk.inj (Option.some.inj hm)
  cases hreply : authReply srv y (openDevice y) with
  | error message =>
    rw [hreply] at hsecond
    obtain ⟨hfail, hnil⟩ := hsecond
    refine ⟨.failed, [], ?_, rfl, ?_, by simp [AuthResult.failed], by simp [AuthResult.failed], rfl⟩
    · exact tbmDrmHelperGetAuthInfo_refused hx hfirst authFd device capabilities hfail hnil
    · refine iff_of_false Bool.false_ne_true ?_
      rintro ⟨fd, hfd⟩
      have hinfo := authReply_info.mpr ⟨hfd, rfl, rfl⟩
      rw [hreply] at hinfo
      exact Sent.noConfusion hinfo
  | info name' flags' fd =>
    rw [hreply] at hsecond
    obtain ⟨hok, s, n, copied, rfl, hn, hes⟩ := hsecond
    obtain ⟨hauth, hname', rfl⟩ := authReply_info.mp hreply
    obtain rfl : s = name := by simpa [hname] using hname'
    have hget := tbmDrmHelperGetAuthInfo_informed hx hfirst authFd device capabilities hok hn hes
    refine ⟨_, _, hget, rfl, iff_of_true rfl ⟨fd, hauth⟩, by cases capabilities <;> simp, ?_, ?_⟩
    · cases device <;> cases copied <;> cases x.strdup <;> simp
    · cases device <;> cases authFd <;> cases copied <;> cases x.strdup <;> rfl

private def awaited : List ServerOp :=
  [.init true 3 (some "card0") 1 ⟨true, true, true, true⟩, .bind true]

/-- The magic that the kernel gives out is the one it lets in. -/
private def trusting : DrmAnswers := ⟨.ok 7, none, .ok 5, fun fd magic => fd == 3 && magic == 5⟩

/-- The client gets the descriptor as 9. -/
private def answeredOnce : ClientAnswers where
  calloc := true
  connect := true
  getRegistry := true
  first := [.global "wl_output" true, .global "wl_tbm_drm_auth" true]
  firstTrip := true
  second := [.authenticationInfo (some "card0") 1 9 true]
  secondTrip := true
  strdup := true

theorem auth_session_answeredOnce : ∃ r live,
    tbmDrmHelperGetAuthInfo answeredOnce true true false = some (r, live) ∧
      (r.ret = true ↔ ∃ fd, Authenticates 3 trusting fd) ∧ (∀ c ∈ r.capabilities, c = 1) ∧
      (∀ s ∈ r.device, ∀ d ∈ s, d = "card0") ∧
      live = (if r.device.any Option.isSome then [.copy] else []) ++
        r.authFd.toList.map ClientItem.fd := by
  have hrun : ((run ServerProc.step awaited .initial).bind fun r =>
      (r.2.getAuthenticationInfo r.2.srvs trusting).map fun m => (configured r.1, m.1)) =
      some (some (3, some "card0", 1), .info (some "card0") 1 7) := by decide +kernel
  obtain ⟨⟨log, p⟩, hr, hbind⟩ := Option.bind_eq_some_iff.mp hrun
  obtain ⟨⟨m, p'⟩, hm, he⟩ := Option.map_eq_some_iff.mp hbind
  obtain ⟨hc, rfl⟩ := Prod.mk.inj he
  have hfirst : Announces answeredOnce.first :=
    ⟨[.global "wl_output" true], [], rfl, by simp [Event.Other]⟩
  obtain ⟨r, live, hget, -, hrest⟩ := auth_session (by decide +kernel) hr hc hm (by decide) hfirst
    ⟨rfl, "card0", 9, true, rfl, by decide, rfl⟩ true true false
  exact ⟨r, live, hget, hrest⟩

end Tbm.Drm
