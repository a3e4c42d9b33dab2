import Tbm.Drm.Server
import Mathlib.Data.List.Count

/-! The side of a client that asks for an authenticated descriptor of the drm device, against any
server. -/
namespace Tbm.Drm

/-- What a client has to give back: its proxies, its copies of a name, its descriptors. `copy` is
the caller's copy of the name. -/
inductive ClientItem
  | client | display | registry | auth | device | copy
  | fd (n : ℤ)
  deriving DecidableEq, Repr

/-- An event that the client dispatches, with the answer of `wl_registry_bind` or `strdup` to its
handler. -/
inductive Event
  | global (interface : String) (bound : Bool)
  | globalRemove
  | authenticationInfo (deviceName : Option String) (capabilities : UInt32) (authFd : ℤ)
    (strdup : Bool)
  deriving DecidableEq, Repr

/-- `struct wayland_tbm_drm_auth_client`, and what has been taken so far. -/
structure Client where
  auth : Bool
  authFd : ℤ
  device : Option String
  capabilities : UInt32
  live : List ClientItem

/-- What the system and the server answer to one call; a round trip dispatches events and fails or
not. -/
structure ClientAnswers where
  calloc : Bool
  connect : Bool
  getRegistry : Bool
  first : List Event
  firstTrip : Bool
  second : List Event
  secondTrip : Bool
  strdup : Bool

/-- The result with what was written through the three pointers. -/
structure AuthResult where
  ret : Bool
  authFd : Option ℤ
  device : Option (Option String)
  capabilities : Option UInt32
  deriving DecidableEq, Repr

namespace Client

variable (c : Client)

/-- `_wayland_tbm_drm_auth_client_registry_handle_global`. -/
def handleGlobal (interface : String) (bound : Bool) : Client :=
  if interface = "wl_tbm_drm_auth" then
    if bound then { c with auth := true, live := .auth :: c.live } else { c with auth := false }
  else c

/-- `handle_tbm_drm_authentication_info`; the descriptor is the client's from here on. -/
def handleAuthenticationInfo (deviceName : Option String) (capabilities : UInt32) (authFd : ℤ)
    (strdup : Bool) : Client :=
  let c := { c with
    authFd := authFd
    capabilities := capabilities
    live := if 0 ≤ authFd then .fd authFd :: c.live else c.live }
  match deviceName with
  | none => c
  | some name =>
    if strdup then { c with device := some name, live := .device :: c.live }
    else { c with device := none }

/-- The listener of the registry has no `global_remove`. -/
def dispatch : Event → Option Client
  | .global interface bound => some (c.handleGlobal interface bound)
  | .globalRemove => none
  | .authenticationInfo deviceName capabilities authFd strdup =>
    some (c.handleAuthenticationInfo deviceName capabilities authFd strdup)

def roundtrip (c : Client) : List Event → Option Client
  | [] => some c
  | e :: es => (c.dispatch e).bind (·.roundtrip es)

def giveBack (a : ClientItem) : Option Client :=
  (Drm.giveBack a c.live).map fun live => { c with live := live }

/-- `wl_tbm_drm_auth_destroy`. -/
def destroyAuth : Option Client := if c.auth then c.giveBack .auth else none

/-- `free(tbm_drm_client->device)`. -/
def freeDevice : Option Client := if c.device.isSome then c.giveBack .device else some c

/-- The descriptor goes to the caller, or is closed. -/
def takeFd (authFd : Bool) : Option Client :=
  if authFd then some c else c.giveBack (.fd c.authFd)

def copyName (copied : Bool) : Client :=
  if copied then { c with live := .copy :: c.live } else c

def leave : Option Client := do
  let c ← c.giveBack .registry
  let c ← c.giveBack .display
  c.giveBack .client

end Client

def AuthResult.failed : AuthResult where
  ret := false
  authFd := none
  device := none
  capabilities := none

/-- A way out of `tbm_drm_helper_get_auth_info` with 0. -/
def Client.fail (c : Client) : Option (AuthResult × List ClientItem) :=
  c.leave.map fun c => (.failed, c.live)

/-- Its end, after both round trips have succeeded. -/
def Client.handOver (c : Client) (strdup authFd device capabilities : Bool) :
    Option (AuthResult × List ClientItem) := do
  let c ← c.takeFd authFd
  let copied := device && c.device.isSome && strdup
  let r : AuthResult := {
    ret := true
    authFd := if authFd then some c.authFd else none
    device := if device then some (if copied then c.device else none) else none
    capabilities := if capabilities then some c.capabilities else none }
  let c ← (c.copyName copied).destroyAuth
  let c ← c.freeDevice
  c.leave.map fun c => (r, c.live)

/-- The last three are whether the pointers are not NULL. -/
def tbmDrmHelperGetAuthInfo (x : ClientAnswers) (authFd device capabilities : Bool) :
    Option (AuthResult × List ClientItem) :=
  if !x.calloc then some (.failed, [])
  else if !x.connect then (giveBack .client [.client]).map (.failed, ·)
  else if !x.getRegistry then do
    let live ← giveBack .display [.display, .client]
    (giveBack .client live).map (.failed, ·)
  else do
    let c ← Client.roundtrip ⟨false, -1, none, 0, [.registry, .display, .client]⟩ x.first
    if !x.firstTrip ∨ !c.auth then c.fail
    else do
      let c ← c.roundtrip x.second
      if !x.secondTrip ∨ c.authFd < 0 then do
        let c ← c.destroyAuth
        c.fail
      else c.handOver x.strdup authFd device capabilities

def Event.takes : Event → List ClientItem
  | .global interface bound => if interface = "wl_tbm_drm_auth" ∧ bound then [.auth] else []
  | .globalRemove => []
  | .authenticationInfo deviceName _ authFd strdup =>
    (if deviceName.isSome ∧ strdup then [.device] else []) ++
      if 0 ≤ authFd then [.fd authFd] else []

/-- What the client knows after some events. -/
def Event.authFd (fd : ℤ) : Event → ℤ
  | .authenticationInfo _ _ authFd _ => authFd
  | _ => fd

def Event.device (name : Option String) : Event → Option String
  | .authenticationInfo (some s) _ _ strdup => if strdup then some s else none
  | _ => name

/-- The client between two events. -/
structure Client.Holds (c : Client) (es : List Event) : Prop where
  live : c.live.Perm (es.flatMap Event.takes ++ [.registry, .display, .client])
  auth : c.auth → .auth ∈ es.flatMap Event.takes
  authFd : c.authFd = es.foldl Event.authFd (-1)
  device : c.device = es.foldl Event.device none
  fd : 0 ≤ c.authFd → .fd c.authFd ∈ es.flatMap Event.takes
  name : c.device.isSome → .device ∈ es.flatMap Event.takes

theorem Client.Holds.dispatch {c : Client} {es : List Event} (h : c.Holds es) {e : Event}
    (he : e ≠ .globalRemove) : ∃ c', c.dispatch e = some c' ∧ c'.Holds (es ++ [e]) := by
  have htake {l : List ClientItem} (hl : l = e.takes ++ c.live) :
      l.Perm ((es ++ [e]).flatMap Event.takes ++ [.registry, .display, .client]) := by
    rw [hl, List.flatMap_append, List.flatMap_singleton, List.append_assoc]
    refine (h.live.append_left e.takes).trans ?_
    rw [← List.append_assoc, ← List.append_assoc]
    exact List.perm_append_comm.append_right _
  have hkeep {a : ClientItem} (ha : a ∈ es.flatMap Event.takes) :
      a ∈ (es ++ [e]).flatMap Event.takes := by
    rw [List.flatMap_append]
    exact List.mem_append_left _ ha
  have hnew {a : ClientItem} (ha : a ∈ e.takes) : a ∈ (es ++ [e]).flatMap Event.takes := by
    rw [List.flatMap_append, List.flatMap_singleton]
    exact List.mem_append_right _ ha
  have hfd := h.authFd
  have hdev := h.device
  cases e with
  | globalRemove => exact absurd rfl he
  | global interface bound =>
    refine ⟨_, rfl, ?_⟩
    unfold handleGlobal
    split_ifs with hi hb
    · refine ⟨htake (by simp [Event.takes, hi, hb]), fun _ => hnew (by simp [Event.takes, hi, hb]),
        ?_, ?_, hkeep ∘ h.fd, hkeep ∘ h.name⟩ <;> simpa [Event.authFd, Event.device]
    · refine ⟨htake (by simp [Event.takes, hb]), by simp, ?_, ?_, hkeep ∘ h.fd,
        hkeep ∘ h.name⟩ <;> simpa [Event.authFd, Event.device]
    · refine ⟨htake (by simp [Event.takes, hi]), hkeep ∘ h.auth, ?_, ?_, hkeep ∘ h.fd,
        hkeep ∘ h.name⟩ <;> simpa [Event.authFd, Event.device]
  | authenticationInfo deviceName capabilities authFd strdup =>
    refine ⟨_, rfl, ?_⟩
    unfold handleAuthenticationInfo
    have hfd' (hle : 0 ≤ authFd) := hnew (a := .fd authFd) (by simp [Event.takes, hle])
    cases deviceName with
    | none =>
      refine ⟨htake ?_, hkeep ∘ h.auth, by simp [Event.authFd], by simpa [Event.device], hfd',
        hkeep ∘ h.name⟩
      by_cases hle : 0 ≤ authFd <;> simp [Event.takes, hle]
    | some name =>
      simp only
      split_ifs with hs hle hle
      · refine ⟨htake (by simp [Event.takes, hs, hle]), hkeep ∘ h.auth, by simp [Event.authFd],
          by simp [Event.device, hs], hfd', fun _ => hnew (by simp [Event.takes, hs])⟩
      · refine ⟨htake (by simp [Event.takes, hs, hle]), hkeep ∘ h.auth, by simp [Event.authFd],
          by simp [Event.device, hs], hfd', fun _ => hnew (by simp [Event.takes, hs])⟩
      · refine ⟨htake (by simp [Event.takes, hs, hle]), hkeep ∘ h.auth, by simp [Event.authFd],
          by simp [Event.device, hs], hfd', by simp⟩
      · refine ⟨htake (by simp [Event.takes, hs, hle]), hkeep ∘ h.auth, by simp [Event.authFd],
          by simp [Event.device, hs], hfd', by simp⟩

theorem Client.Holds.roundtrip {c : Client} {es es' : List Event} (h : c.Holds es)
    (he : .globalRemove ∉ es') : ∃ c', c.roundtrip es' = some c' ∧ c'.Holds (es ++ es') := by
  induction es' generalizing c es with
  | nil =>
    rw [List.append_nil]
    exact ⟨c, rfl, h⟩
  | cons e es' ih =>
    obtain ⟨hne, hrest⟩ := not_or.mp (mt List.mem_cons.mpr he)
    obtain ⟨c', hc, h'⟩ := h.dispatch (Ne.symm hne)
    obtain ⟨c'', hc', h''⟩ := ih h' hrest
    rw [List.append_assoc] at h''
    refine ⟨c'', ?_, h''⟩
    rw [Client.roundtrip, hc]
    exact hc'

theorem Client.giveBack_perm {c : Client} {a : ClientItem} {l : List ClientItem}
    (h : c.live.Perm (a :: l)) : ∃ k, c.giveBack a = some { c with live := k } ∧ k.Perm l := by
  obtain ⟨k, hk, hl⟩ := Drm.giveBack_perm h
  exact ⟨k, by rw [Client.giveBack, hk]; rfl, hl⟩

theorem Client.leave_perm {c : Client} {l : List ClientItem}
    (h : c.live.Perm (l ++ [.registry, .display, .client])) :
    ∃ k, c.leave = some { c with live := k } ∧ k.Perm l := by
  have hback : (l ++ [.registry, .display, .client] : List ClientItem).Perm
      (.registry :: .display :: .client :: l) := List.perm_append_comm
  obtain ⟨k₁, he₁, h₁⟩ := Client.giveBack_perm (h.trans hback)
  obtain ⟨k₂, he₂, h₂⟩ := Client.giveBack_perm (c := { c with live := k₁ }) h₁
  obtain ⟨k₃, he₃, h₃⟩ := Client.giveBack_perm (c := { c with live := k₂ }) h₂
  refine ⟨k₃, ?_, h₃⟩
  rw [leave, he₁]
  simp only [Option.bind_eq_bind, Option.bind_some]
  rw [he₂]
  exact he₃

/-- What is left after the events `es` and what was given back of it. -/
structure Leftover (es : List Event) (authFd : Bool) (r : AuthResult)
    (live back : List ClientItem) : Prop where
  balance : (live ++ back).Perm (es.flatMap Event.takes ++
    if r.device.any Option.isSome then [.copy] else [])
  failed : r.ret = false → back = [] ∨ back = [.auth]
  succeeded : r.ret = true → back = .auth ::
    ((if (es.foldl Event.device none).isSome then [.device] else []) ++
    if authFd then [] else [.fd (es.foldl Event.authFd (-1))])

theorem Client.Holds.fail {c : Client} {es : List Event} {authFd : Bool} {l back : List ClientItem}
    (hl : c.live.Perm (l ++ [.registry, .display, .client]))
    (hb : (l ++ back).Perm (es.flatMap Event.takes)) (ha : back = [] ∨ back = [.auth]) :
    ∃ live, c.fail = some (.failed, live) ∧ Leftover es authFd .failed live back := by
  obtain ⟨k, hk, hperm⟩ := Client.leave_perm hl
  refine ⟨k, by rw [Client.fail, hk]; rfl, ?_, fun _ => ha, fun h => absurd h Bool.false_ne_true⟩
  have hnil : (if AuthResult.failed.device.any Option.isSome then [ClientItem.copy] else []) = [] :=
    rfl
  rw [hnil, List.append_nil]
  exact (hperm.append_right back).trans hb

theorem Client.destroyAuth_perm {c : Client} {l : List ClientItem} (ha : c.auth = true)
    (h : c.live.Perm (.auth :: l)) :
    ∃ k, c.destroyAuth = some { c with live := k } ∧ k.Perm l := by
  unfold destroyAuth
  rw [if_pos ha]
  exact Client.giveBack_perm h

/-- What a successful call gives back of what it was sent. -/
def Client.spent (c : Client) (authFd : Bool) : List ClientItem :=
  .auth :: ((if c.device.isSome then [.device] else []) ++ if authFd then [] else [.fd c.authFd])

theorem Client.Holds.spent {c : Client} {es : List Event} (h : c.Holds es) (ha : c.auth = true)
    (hfd : 0 ≤ c.authFd) (authFd : Bool) :
    ∃ rest, (c.spent authFd ++ rest).Perm (es.flatMap Event.takes) := by
  have hnodup : (c.spent authFd).Nodup := by
    unfold Client.spent
    split_ifs <;> simp
  have hsub : c.spent authFd ⊆ es.flatMap Event.takes := by
    unfold Client.spent
    apply List.cons_subset.mpr ⟨h.auth ha, List.append_subset.mpr ⟨?_, ?_⟩⟩
    · split_ifs with hd
      · exact List.cons_subset.mpr ⟨h.name hd, List.nil_subset _⟩
      · exact List.nil_subset _
    · split_ifs
      · exact List.nil_subset _
      · exact List.cons_subset.mpr ⟨h.fd hfd, List.nil_subset _⟩
  exact ⟨_, List.subperm_append_diff_self_of_count_le fun a _ =>
    (List.subperm_of_subset hnodup hsub).count_le a⟩

theorem Client.takeFd_perm {c : Client} {authFd : Bool} {l : List ClientItem}
    (h : c.live.Perm (c.spent authFd ++ l)) :
    ∃ k, c.takeFd authFd = some { c with live := k } ∧
      k.Perm (.auth :: ((if c.device.isSome then [.device] else []) ++ l)) := by
  unfold Client.spent at h
  cases authFd with
  | true => exact ⟨c.live, rfl, by simpa using h⟩
  | false =>
    apply Client.giveBack_perm (h.trans _)
    apply List.perm_iff_count.mpr
    intro a
    simp only [Bool.false_eq_true, ↓reduceIte, List.cons_append, List.append_assoc,
      List.nil_append, List.count_cons, List.count_append, beq_iff_eq]
    omega

theorem Client.copyName_perm {c : Client} {l : List ClientItem} (copied : Bool)
    (h : c.live.Perm l) : ∃ k, c.copyName copied = { c with live := k } ∧
      k.Perm ((if copied then [.copy] else []) ++ l) := by
  cases copied with
  | true => exact ⟨.copy :: c.live, rfl, h.cons _⟩
  | false => exact ⟨c.live, rfl, h⟩

theorem Client.freeDevice_perm {c : Client} {l : List ClientItem}
    (h : c.live.Perm ((if c.device.isSome then [.device] else []) ++ l)) :
    ∃ k, c.freeDevice = some { c with live := k } ∧ k.Perm l := by
  unfold freeDevice
  split_ifs at h ⊢ with hd
  · exact Client.giveBack_perm h
  · exact ⟨c.live, rfl, h⟩

theorem Client.Holds.handOver {c : Client} {es : List Event} (h : c.Holds es) (ha : c.auth = true)
    (hfd : 0 ≤ c.authFd) (strdup authFd device capabilities : Bool) :
    ∃ r live back, c.handOver strdup authFd device capabilities = some (r, live) ∧
      r.ret = true ∧ Leftover es authFd r live back := by
  obtain ⟨rest, hrest⟩ := h.spent ha hfd authFd
  have hlive := h.live.trans (hrest.symm.append_right _)
  rw [List.append_assoc] at hlive
  let copied := device && c.device.isSome && strdup
  let r : AuthResult :=
    ⟨true, if authFd then some c.authFd else none,
      if device then some (if copied then c.device else none) else none,
      if capabilities then some c.capabilities else none⟩
  let copy : List ClientItem := if copied then [.copy] else []
  let names : List ClientItem := if c.device.isSome then [.device] else []
  obtain ⟨k₁, he₁, h₁⟩ := Client.takeFd_perm hlive
  obtain ⟨k₂, he₂, h₂⟩ := Client.copyName_perm (c := { c with live := k₁ }) copied h₁
  have hauth : k₂.Perm (.auth :: (names ++ (copy ++ rest ++ [.registry, .display, .client]))) := by
    apply h₂.trans
    apply List.perm_iff_count.mpr
    intro a
    simp only [List.count_append, List.count_cons, names, copy]
    omega
  obtain ⟨k₃, he₃, h₃⟩ := Client.destroyAuth_perm (c := { c with live := k₂ }) ha hauth
  obtain ⟨k₄, he₄, h₄⟩ := Client.freeDevice_perm (c := { c with live := k₃ }) h₃
  obtain ⟨k₅, he₅, h₅⟩ := Client.leave_perm (c := { c with live := k₄ }) h₄
  refine ⟨r, k₅, c.spent authFd, ?_, rfl, ?_, by simp [r], fun _ => ?_⟩
  · unfold Client.handOver
    rw [he₁, Option.bind_eq_bind, Option.bind_some]
    dsimp only
    rw [show (device && c.device.isSome && strdup) = copied from rfl, he₂, he₃, Option.bind_some,
      he₄, Option.bind_some, he₅]
    rfl
  · have hcopied : (if r.device.any Option.isSome then [ClientItem.copy] else []) = copy := by
      have hany (v : Option String) : (if device then some (if device && v.isSome && strdup then v
          else none) else none : Option (Option String)).any Option.isSome =
            (device && v.isSome && strdup) := by
        cases device <;> cases v <;> cases strdup <;> rfl
      rw [show r.device.any Option.isSome = copied from hany c.device]
    rw [hcopied]
    apply (h₅.append_right _).trans (List.Perm.trans ?_ (hrest.append_right copy))
    rw [List.append_assoc]
    apply List.perm_append_comm.trans (List.Perm.append_right copy ?_)
    exact List.perm_append_comm
  · rw [← h.device, ← h.authFd]
    rfl

/-- The object that was bound last is there while no other bind fails. -/
theorem Client.roundtrip_auth {c c' : Client} {es : List Event} (h : c.roundtrip es = some c')
    (ha : c.auth = true) (he : .global "wl_tbm_drm_auth" false ∉ es) : c'.auth = true := by
  induction es generalizing c with
  | nil =>
    obtain rfl := Option.some.inj h
    exact ha
  | cons e es ih =>
    obtain ⟨hne, hrest⟩ := not_or.mp (mt List.mem_cons.mpr he)
    obtain ⟨d, hd, hc⟩ := Option.bind_eq_some_iff.mp h
    refine ih hc ?_ hrest
    cases e with
    | global interface bound =>
      obtain rfl := Option.some.inj hd
      unfold handleGlobal
      split_ifs with hi hb
      · rfl
      · exact absurd (by simp [hi, hb]) hne
      · exact ha
    | globalRemove => exact absurd hd (by simp [Client.dispatch])
    | authenticationInfo deviceName capabilities authFd strdup =>
      obtain rfl := Option.some.inj hd
      unfold handleAuthenticationInfo
      cases deviceName with
      | none => exact ha
      | some name =>
        simp only
        split_ifs <;> exact ha

/-- A server that answers twice and then breaks the connection off, and one that answers twice. -/
private def twice (trip : Bool) : ClientAnswers where
  calloc := true
  connect := true
  getRegistry := true
  first := [.global "wl_output" true, .global "wl_tbm_drm_auth" true]
  firstTrip := true
  second := [.authenticationInfo (some "card0") 1 7 true,
    .authenticationInfo (some "card0") 1 8 true]
  secondTrip := trip
  strdup := true

end Tbm.Drm
