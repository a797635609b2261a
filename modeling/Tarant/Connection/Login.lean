import Tarant.Connection.Moves

/-!
# The replies to a login

`handshake_inner` reads a packet for `IPROTO_ID` and, with a user to log in, a second one for
`IPROTO_AUTH`.  It tells an error reply from any other packet in the second place, and compares
no sync.  So a login is confirmed as long as the two packets are the two replies.
-/

namespace Tarant.Connection

open Msgpack (bind_ok)

/-! ## Reading the replies -/

def nextReply :
    List (Except Error Response) → Except Error (Response × List (Except Error Response))
  | [] => .error .closed
  | .error err :: _ => .error err
  | .ok reply :: rest => .ok (reply, rest)

/-- `handshake_inner` behind its writes; the packets it has not read stay on the link. -/
def handshakeInner (rmp : Rmp) (options : ConnectOptions) (serverVersion : String)
    (link : List (Except Error Response)) :
    Except Error (Negotiated × List (Except Error Response)) := do
  let (idReply, link) ← nextReply link
  let negotiated ← acceptId rmp serverVersion idReply
  match options.loginUser with
  | none => .ok (negotiated, link)
  | some user =>
      let (authReply, link) ← nextReply link
      acceptAuth user authReply
      .ok (negotiated, link)

theorem nextReply_ok {link rest : List (Except Error Response)} {reply : Response} :
    nextReply link = .ok (reply, rest) ↔ link = .ok reply :: rest := by
  constructor
  · intro h
    rcases link with - | ⟨err | first, packets⟩
    · cases h
    · cases h
    · obtain ⟨rfl, rfl⟩ := Prod.mk.inj (Except.ok.inj h)
      rfl
  · rintro rfl
    rfl

def PassesForId (rmp : Rmp) (reply : Response) : Prop :=
  reply.kind = .error ∨ reply.kind = .ok ∧ ∃ body, reply.bodyMap rmp = .ok body

theorem acceptId_iff {rmp : Rmp} {reply : Response} (serverVersion : String) :
    (∃ negotiated, acceptId rmp serverVersion reply = .ok negotiated) ↔ PassesForId rmp reply := by
  unfold acceptId PassesForId
  cases hkind : reply.kind with
  | ok =>
      constructor
      · rintro ⟨negotiated, h⟩
        obtain ⟨body, hbody, -⟩ := bind_ok.mp h
        exact .inr ⟨rfl, body, hbody⟩
      · rintro (h | ⟨-, body, hbody⟩)
        · cases h
        · exact ⟨_, bind_ok.mpr ⟨body, hbody, rfl⟩⟩
  | error => exact ⟨fun _ => .inl rfl, fun _ => ⟨_, rfl⟩⟩
  | chunk => simp
  | event => simp

theorem acceptAuth_ok {user : String} {reply : Response} :
    acceptAuth user reply = .ok () ↔ reply.kind ≠ .error := by
  unfold acceptAuth
  split
  next h => simp [h]
  next h => simp [h]

theorem handshakeInner_ok {rmp : Rmp} {options : ConnectOptions} {user serverVersion : String}
    {link rest : List (Except Error Response)} (huser : options.loginUser = some user) :
    (∃ negotiated, handshakeInner rmp options serverVersion link = .ok (negotiated, rest)) ↔
      ∃ idReply authReply, link = .ok idReply :: .ok authReply :: rest ∧
        PassesForId rmp idReply ∧ authReply.kind ≠ .error := by
  unfold handshakeInner
  rw [huser]
  constructor
  · rintro ⟨negotiated, h⟩
    obtain ⟨⟨idReply, link'⟩, hid, h⟩ := bind_ok.mp h
    obtain ⟨negotiated', haccept, h⟩ := bind_ok.mp h
    obtain ⟨⟨authReply, link''⟩, hauth, h⟩ := bind_ok.mp h
    obtain ⟨⟨⟩, hlogin, h⟩ := bind_ok.mp h
    obtain ⟨rfl, rfl⟩ := Prod.mk.inj (Except.ok.inj h)
    obtain rfl := nextReply_ok.mp hid
    obtain rfl := nextReply_ok.mp hauth
    exact ⟨idReply, authReply, rfl, (acceptId_iff _).mp ⟨_, haccept⟩, acceptAuth_ok.mp hlogin⟩
  · rintro ⟨idReply, authReply, rfl, hpasses, hkind⟩
    obtain ⟨negotiated, haccept⟩ := (acceptId_iff serverVersion).mpr hpasses
    refine ⟨negotiated, bind_ok.mpr ⟨_, nextReply_ok.mpr rfl, bind_ok.mpr ⟨_, haccept, ?_⟩⟩⟩
    refine bind_ok.mpr ⟨_, nextReply_ok.mpr rfl, bind_ok.mpr ⟨(), acceptAuth_ok.mpr hkind, rfl⟩⟩

/-! ## The handshake of the task -/

def State.unread (s : State) (socket : Nat) : List (Except Error Response) :=
  ((s.inbound socket).drop (s.read socket)).map fun inbound => .ok inbound.response

theorem unread_advance {s : State} {socket : Nat} {inbound : Inbound}
    (h : (s.inbound socket)[s.read socket]? = some inbound) :
    s.unread socket = .ok inbound.response :: (s.advance socket).unread socket := by
  obtain ⟨hlt, hget⟩ := List.getElem?_eq_some_iff.mp h
  have hread : (s.advance socket).read socket = s.read socket + 1 := Function.update_self ..
  rw [State.unread, List.drop_eq_getElem_cons hlt, hget, List.map_cons, State.unread, hread]
  rfl

theorem afterFailure_socket {options : ConnectOptions} {delay : Option Nat} {phase : Phase}
    (h : Phase.afterFailure options delay = some phase) :
    phase ≠ .drain ∧ phase.socket = none := by
  unfold Phase.afterFailure at h
  split at h
  · cases h
    exact ⟨Phase.noConfusion, rfl⟩
  · split at h
    · cases h
      exact ⟨Phase.noConfusion, rfl⟩
    · cases h

theorem read_id {rmp : Rmp} {s s' : State} {order : List String} {send : String → SendResult}
    {delay : Option Nat} {socket : Nat} {version user : String}
    (hphase : s.phase = .awaitingId delay socket version)
    (huser : s.options.loginUser = some user)
    (h : TaskMove rmp s (.handshakeReply order send) s') (hsocket : s'.phase.socket.isSome) :
    ∃ reply negotiated, s.unread socket = .ok reply :: s'.unread socket ∧
      acceptId rmp version reply = .ok negotiated ∧
      s'.phase = .awaitingAuth delay socket user negotiated := by
  cases h with
  | replyRejected _ _ hafter =>
      rw [(afterFailure_socket hafter).2] at hsocket
      cases hsocket
  | @idAccepted _ _ _ _ _ _ negotiated inbound hphase' hinbound haccept huser' =>
      rw [hphase] at hphase'
      cases hphase'
      rw [huser] at huser'
      cases huser'
      exact ⟨inbound.response, negotiated, unread_advance hinbound, haccept, rfl⟩
  | spawned hreply hinbound => cases hsocket
  | reconnected hreply hinbound horder => cases hsocket

theorem LastReply.login {rmp : Rmp} {s : State} {reply : Response} {delay delay' : Option Nat}
    {socket socket' : Nat} {user : String} {negotiated negotiated' : Negotiated}
    (hphase : s.phase = .awaitingAuth delay socket user negotiated)
    (h : LastReply rmp s reply delay' socket' negotiated') :
    socket' = socket ∧ acceptAuth user reply = .ok () := by
  cases h with
  | id hphase' =>
      rw [hphase] at hphase'
      cases hphase'
  | auth hphase' haccept =>
      rw [hphase] at hphase'
      cases hphase'
      exact ⟨rfl, haccept⟩

theorem read_auth {rmp : Rmp} {s s' : State} {order : List String} {send : String → SendResult}
    {delay : Option Nat} {socket : Nat} {user : String} {negotiated : Negotiated}
    (hphase : s.phase = .awaitingAuth delay socket user negotiated)
    (h : TaskMove rmp s (.handshakeReply order send) s') (hup : s'.phase = .drain) :
    ∃ reply, s.unread socket = .ok reply :: s'.unread socket ∧
      acceptAuth user reply = .ok () := by
  cases h with
  | replyRejected _ _ hafter => exact absurd hup (afterFailure_socket hafter).1
  | idAccepted hphase' =>
      rw [hphase] at hphase'
      cases hphase'
  | spawned hreply hinbound =>
      obtain ⟨rfl, haccept⟩ := hreply.login hphase
      exact ⟨_, unread_advance hinbound, haccept⟩
  | reconnected hreply hinbound horder =>
      obtain ⟨rfl, haccept⟩ := hreply.login hphase
      exact ⟨_, unread_advance hinbound, haccept⟩

theorem handshakeReply_socket {rmp : Rmp} {s s' : State} {order : List String}
    {send : String → SendResult} (h : s.handshakeReply rmp order send = some s') :
    s.phase.socket.isSome := by
  unfold State.handshakeReply at h
  split at h
  next hphase =>
      rw [hphase]
      rfl
  next hphase =>
      rw [hphase]
      rfl
  next => cases h

theorem handshakeInner_of_steps {rmp : Rmp} {s s₁ s₂ : State} {order order₁ : List String}
    {send send₁ : String → SendResult} {delay : Option Nat} {socket : Nat}
    {version user : String} (hphase : s.phase = .awaitingId delay socket version)
    (huser : s.options.loginUser = some user)
    (hid : s.handshakeReply rmp order send = some s₁)
    (hauth : s₁.handshakeReply rmp order₁ send₁ = some s₂) (hup : s₂.phase = .drain) :
    ∃ negotiated, handshakeInner rmp s.options version (s.unread socket) =
      .ok (negotiated, s₂.unread socket) := by
  obtain ⟨idReply, negotiated, hunread, haccept, hphase₁⟩ :=
    read_id hphase huser (handshakeReply_move hid) (handshakeReply_socket hauth)
  obtain ⟨authReply, hunread₁, hlogin⟩ := read_auth hphase₁ (handshakeReply_move hauth) hup
  refine (handshakeInner_ok huser).mpr ⟨idReply, authReply, ?_, ?_, acceptAuth_ok.mp hlogin⟩
  · rw [hunread, hunread₁]
  · exact (acceptId_iff version).mp ⟨negotiated, haccept⟩

/-! ## Confirmed logins -/

def repliesToLogin : Except Error Response → Bool
  | .ok reply => Kind.final reply.kind && reply.sync == 1
  | .error _ => false

/-- When the handshake of a user ends well, it has read the reply to `IPROTO_ID` and the server's
consent to the login, and so a server that replies once has left no reply to it on the link. -/
def LoginConfirmed (rmp : Rmp) (options : ConnectOptions) (serverVersion : String)
    (link : List (Except Error Response)) : Prop :=
  ∀ user negotiated rest, options.loginUser = some user →
    handshakeInner rmp options serverVersion link = .ok (negotiated, rest) →
    (∃ idReply authReply, link = .ok idReply :: .ok authReply :: rest ∧
      Kind.final idReply.kind = true ∧ idReply.sync = 0 ∧
      authReply.kind = .ok ∧ authReply.sync = 1) ∧
    (link.countP repliesToLogin ≤ 1 → ∀ packet ∈ rest, repliesToLogin packet = false)

/-- The first two packets are the two replies, unless one of them ends the handshake. -/
def RepliesInPlace (rmp : Rmp) : List (Except Error Response) → Prop
  | .ok idReply :: .ok authReply :: _ =>
      ¬ PassesForId rmp idReply ∨ authReply.kind = .error ∨
        idReply.sync = 0 ∧ authReply.kind = .ok ∧ authReply.sync = 1
  | _ => True

theorem PassesForId.final {rmp : Rmp} {reply : Response} (h : PassesForId rmp reply) :
    Kind.final reply.kind = true := by
  obtain hkind | ⟨hkind, -⟩ := h
  · rw [hkind]
    rfl
  · rw [hkind]
    rfl

theorem none_left {idReply authReply : Response} {rest : List (Except Error Response)}
    (hkind : authReply.kind = .ok) (hsync : authReply.sync = 1)
    (hone : (.ok idReply :: .ok authReply :: rest).countP repliesToLogin ≤ 1) :
    ∀ packet ∈ rest, repliesToLogin packet = false := by
  have hauth : repliesToLogin (.ok authReply) = true := by
    rw [repliesToLogin, hkind, hsync]
    rfl
  rw [List.countP_cons, List.countP_cons_of_pos hauth] at hone
  have hnone : rest.countP repliesToLogin = 0 := by omega
  intro packet hmem
  exact Bool.eq_false_iff.mpr (List.countP_eq_zero.mp hnone packet hmem)

/--
The handshake takes nothing but a confirmed login for one if and only if the replies are in place,
or there is no user to log in.
-/
theorem login_confirmed_iff (rmp : Rmp) (options : ConnectOptions) (serverVersion : String)
    (link : List (Except Error Response)) :
    LoginConfirmed rmp options serverVersion link ↔
      options.loginUser = none ∨ RepliesInPlace rmp link := by
  cases huser : options.loginUser with
  | none =>
      refine iff_of_true (fun user negotiated rest hlogin => ?_) (.inl rfl)
      rw [huser] at hlogin
      cases hlogin
  | some user =>
      rw [or_iff_right (Option.some_ne_none user)]
      constructor
      · intro h
        unfold RepliesInPlace
        split
        next idReply authReply rest =>
            by_cases hpasses : PassesForId rmp idReply
            · by_cases hkind : authReply.kind = .error
              · exact .inr (.inl hkind)
              · obtain ⟨negotiated, hok⟩ := (handshakeInner_ok huser).mpr
                  ⟨idReply, authReply, rfl, hpasses, hkind⟩
                obtain ⟨⟨_, _, heq, -, hconfirmed⟩, -⟩ := h user negotiated rest huser hok
                simp only [List.cons.injEq, Except.ok.injEq, and_true] at heq
                obtain ⟨rfl, rfl⟩ := heq
                exact .inr (.inr hconfirmed)
            · exact .inl hpasses
        next => trivial
      · intro h user' negotiated rest hlogin hok
        obtain ⟨idReply, authReply, rfl, hpasses, hkind⟩ :=
          (handshakeInner_ok hlogin).mp ⟨negotiated, hok⟩
        obtain hnot | herror | ⟨hid, hauth, hsync⟩ := h
        · exact absurd hpasses hnot
        · exact absurd herror hkind
        · exact ⟨⟨idReply, authReply, rfl, hpasses.final, hid, hauth, hsync⟩,
            none_left hauth hsync⟩

/-- An event in the place of the second reply ends the handshake, and the reply is left. -/
theorem event_taken_for_login :
    (∃ negotiated, handshakeInner fixintRmp { user := some "app" } "3.0.0"
        [.ok sampleIdReply.response, .ok { kind := .event, sync := 0 },
          .ok { kind := .ok, sync := 1 }] =
      .ok (negotiated, [.ok { kind := .ok, sync := 1 }])) ∧
    ¬ ∀ rmp options serverVersion link, LoginConfirmed rmp options serverVersion link := by
  have hlogin : ∃ negotiated, handshakeInner fixintRmp { user := some "app" } "3.0.0"
        [.ok sampleIdReply.response, .ok { kind := .event, sync := 0 },
          .ok { kind := .ok, sync := 1 }] =
      .ok (negotiated, [.ok { kind := .ok, sync := 1 }]) := ⟨_, rfl⟩
  refine ⟨hlogin, fun hall => ?_⟩
  obtain ⟨negotiated, hok⟩ := hlogin
  obtain ⟨-, hnone⟩ := hall _ _ _ _ "app" negotiated _ rfl hok
  exact absurd (hnone (by decide) _ (List.mem_singleton_self _)) (by decide)

end Tarant.Connection
