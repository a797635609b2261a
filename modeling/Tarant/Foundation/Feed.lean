import Mathlib

/-!
# Acknowledged feeds

A server feeds one value that changes to the members of a client.  The client asks
for the feed or acknowledges an event with the request `true`, and ends the feed with
`false`; the server sends the value once when the feed begins, and again when the
value differs from the one it sent last and that one was acknowledged.  Requests and
events are in flight for any time.  Once nothing is in flight, every member has the
value, provided that nobody joins a feed that is running and has nothing to come.
-/

namespace Tarant.Foundation

/-- A feed, with `requests` in flight to the server and `events` to the client. -/
@[ext] structure Feed (ι α : Type*) where
  /-- The requests that the server has handled. -/
  handled : List Bool
  requests : List Bool
  /-- The value sent last while the feed is running, and whether it was acknowledged. -/
  registration : Option (α × Bool)
  events : List α
  /-- The client keeps members for the feed. -/
  wanted : Bool
  members : List ι
  cell : ι → Option α

namespace Feed

variable {ι α : Type*} [DecidableEq ι] [DecidableEq α]

/-! ## What the two sides do -/

def subscribe (f : Feed ι α) (first : List ι) : Feed ι α :=
  { f with requests := f.requests ++ [true], wanted := true, members := first }

def join (f : Feed ι α) (more : List ι) : Feed ι α := { f with members := f.members ++ more }

def unsubscribe (f : Feed ι α) : Feed ι α :=
  { f with requests := f.requests ++ [false], wanted := false, members := [] }

def read (f : Feed ι α) (event : α) (rest : List α) : Feed ι α :=
  if f.wanted then
    { f with
      requests := f.requests ++ [true]
      events := rest
      cell := fun m => if m ∈ f.members then some event else f.cell m }
  else { f with events := rest }

def emit (f : Feed ι α) (value : α) : Feed ι α :=
  { f with registration := some (value, false), events := f.events ++ [value] }

def respond (f : Feed ι α) (value : α) (request : Bool) : Feed ι α :=
  match request, f.registration with
  | false, _ => { f with registration := none }
  | true, none => f.emit value
  | true, some (sent, _) =>
      if sent = value then { f with registration := some (sent, true) } else f.emit value

def serve (f : Feed ι α) (value : α) (request : Bool) (rest : List Bool) : Feed ι α :=
  { f with handled := f.handled ++ [request], requests := rest }.respond value request

omit [DecidableEq ι] in
theorem handled_serve (f : Feed ι α) (value : α) (request : Bool) (rest : List Bool) :
    (f.serve value request rest).handled = f.handled ++ [request] := by
  unfold serve respond
  split
  · rfl
  · rfl
  · split <;> rfl

structure Within (f g : Feed ι α) : Prop where
  handled : f.handled = g.handled
  requests : f.requests = g.requests
  registration : f.registration = g.registration
  events : f.events = g.events
  wanted : f.wanted = g.wanted
  members : ∀ m ∈ f.members, m ∈ g.members ∧ f.cell m = g.cell m

/-- An event is still to come: it is in flight, or the feed begins again. -/
def Due (f : Feed ι α) : Prop := f.events ≠ [] ∨ f.registration = none ∨ false ∈ f.requests

/-! ## The invariant -/

structure Sound (f : Feed ι α) : Prop where
  /-- The feed runs when the last request handled asked for it. -/
  running : f.registration.isSome = true ↔ f.handled.getLast? = some true
  asked : f.wanted = true ↔ (f.handled ++ f.requests).getLast? = some true
  held : f.members ≠ [] → f.wanted = true
  /-- The last event in flight has the value sent last. -/
  latest : ∀ sent acked, f.registration = some (sent, acked) → f.events ≠ [] →
    f.events.getLast? = some sent
  /-- What was not acknowledged is on its way, or the acknowledgement is. -/
  owed : ∀ sent, f.registration = some (sent, false) → false ∉ f.requests →
    f.events ≠ [] ∨ true ∈ f.requests
  shown : ∀ sent acked, f.registration = some (sent, acked) → false ∉ f.requests →
    f.events = [] → ∀ m ∈ f.members, f.cell m = some sent

namespace Sound

variable {f g : Feed ι α}

omit [DecidableEq ι] [DecidableEq α] in
theorem within (h : g.Sound) (hwithin : f.Within g) : f.Sound := by
  obtain ⟨hhandled, hrequests, hregistration, hevents, hwanted, hmembers⟩ := hwithin
  constructor
  · rw [hregistration, hhandled]
    exact h.running
  · rw [hwanted, hhandled, hrequests]
    exact h.asked
  · intro hne
    obtain ⟨m, hmem⟩ := List.exists_mem_of_ne_nil _ hne
    rw [hwanted]
    exact h.held (List.ne_nil_of_mem (hmembers m hmem).1)
  · rw [hregistration, hevents]
    exact h.latest
  · rw [hregistration, hrequests, hevents]
    exact h.owed
  · intro sent acked hsome hrunning hnil m hmem
    rw [hregistration] at hsome
    rw [hrequests] at hrunning
    rw [hevents] at hnil
    rw [(hmembers m hmem).2]
    exact h.shown sent acked hsome hrunning hnil m (hmembers m hmem).1

omit [DecidableEq ι] [DecidableEq α] in
theorem wanted_of_running (h : f.Sound) (hrunning : f.registration.isSome = true)
    (hkept : false ∉ f.requests) : f.wanted = true := by
  rw [h.asked, List.getLast?_append]
  cases hlast : f.requests.getLast? with
  | none => exact h.running.mp hrunning
  | some request =>
      cases request with
      | true => rfl
      | false => exact absurd (List.mem_of_getLast? hlast) hkept

omit [DecidableEq ι] [DecidableEq α] in
theorem ending (h : f.Sound) (hwanted : f.wanted = false) :
    f.registration = none ∨ false ∈ f.requests := by
  by_contra hneither
  obtain ⟨hrunning, hkept⟩ := not_or.mp hneither
  have hwanted' := h.wanted_of_running (Option.isSome_iff_ne_none.mpr hrunning) hkept
  simp [hwanted] at hwanted'

omit [DecidableEq ι] [DecidableEq α] in
theorem subscribe (h : f.Sound) (hwanted : f.wanted = false) (first : List ι) :
    (f.subscribe first).Sound where
  running := h.running
  asked := by simp [Feed.subscribe, ← List.append_assoc]
  held _ := rfl
  latest := h.latest
  owed _ _ _ := .inr (List.mem_append_right _ List.mem_cons_self)
  shown sent acked hsome hkept := by
    obtain hnone | hending := h.ending hwanted
    · exact absurd (hnone.symm.trans hsome) nofun
    · exact absurd (List.mem_append_left _ hending) hkept

omit [DecidableEq ι] [DecidableEq α] in
theorem unsubscribe (h : f.Sound) : f.unsubscribe.Sound where
  running := h.running
  asked := by simp [Feed.unsubscribe, ← List.append_assoc]
  held hne := absurd rfl hne
  latest := h.latest
  owed _ _ hkept := absurd (List.mem_append_right _ List.mem_cons_self) hkept
  shown _ _ _ _ _ m hmem := absurd hmem List.not_mem_nil

omit [DecidableEq ι] [DecidableEq α] in
theorem join (h : f.Sound) (hwanted : f.wanted = true) (hdue : f.Due) (more : List ι) :
    (f.join more).Sound where
  running := h.running
  asked := h.asked
  held _ := hwanted
  latest := h.latest
  owed := h.owed
  shown sent acked hsome hkept hnil := by
    obtain hcoming | hnone | hending := hdue
    · exact absurd hnil hcoming
    · exact absurd (hnone.symm.trans hsome) nofun
    · exact absurd hending hkept

omit [DecidableEq ι] [DecidableEq α] in
theorem emit (value : α) (hrunning : f.handled.getLast? = some true)
    (hasked : f.wanted = true ↔ (f.handled ++ f.requests).getLast? = some true)
    (hheld : f.members ≠ [] → f.wanted = true) : (f.emit value).Sound where
  running := iff_of_true rfl hrunning
  asked := hasked
  held := hheld
  latest sent acked hsome _ := by
    obtain rfl := (Prod.mk.inj (Option.some.inj hsome)).1
    exact List.getLast?_concat
  owed _ _ _ := .inl (by simp [Feed.emit])
  shown _ _ _ _ hnil := by simp [Feed.emit] at hnil

omit [DecidableEq ι] in
theorem serve (h : f.Sound) {request : Bool} {rest : List Bool}
    (hrequests : f.requests = request :: rest) (value : α) : (f.serve value request rest).Sound := by
  have hasked : f.wanted = true ↔ ((f.handled ++ [request]) ++ rest).getLast? = some true := by
    rw [h.asked, hrequests, List.append_assoc]
    rfl
  unfold Feed.serve respond
  cases request with
  | false =>
      exact {
        running := by simp
        asked := hasked
        held := h.held
        latest := nofun
        owed := nofun
        shown := nofun }
  | true =>
      have hlast : (f.handled ++ [true]).getLast? = some true := List.getLast?_concat
      cases hregistration : f.registration with
      | none => exact .emit value hlast hasked h.held
      | some record =>
          obtain ⟨sent, acked⟩ := record
          simp only
          by_cases hsent : sent = value
          · rw [if_pos hsent]
            refine ⟨iff_of_true rfl hlast, hasked, h.held, ?_, nofun, ?_⟩
            · intro sent' acked' hsome
              obtain rfl := (Prod.mk.inj (Option.some.inj hsome)).1
              exact h.latest _ _ hregistration
            · intro sent' acked' hsome hkept
              obtain rfl := (Prod.mk.inj (Option.some.inj hsome)).1
              exact h.shown _ _ hregistration (by simpa [hrequests] using hkept)
          · rw [if_neg hsent]
            exact .emit value hlast hasked h.held

omit [DecidableEq ι] [DecidableEq α] in
theorem notify (h : f.Sound) (hrunning : f.registration.isSome = true) (value : α) :
    (f.emit value).Sound :=
  .emit value (h.running.mp hrunning) h.asked h.held

omit [DecidableEq α] in
theorem read (h : f.Sound) {event : α} {rest : List α} (hevents : f.events = event :: rest) :
    (f.read event rest).Sound := by
  have hlatest (sent : α) (acked : Bool) (hsome : f.registration = some (sent, acked)) :
      (event :: rest).getLast? = some sent :=
    hevents ▸ h.latest sent acked hsome (by simp [hevents])
  have hrest (sent : α) (acked : Bool) (hsome : f.registration = some (sent, acked))
      (hne : rest ≠ []) : rest.getLast? = some sent := by
    obtain ⟨next, rest', rfl⟩ := List.exists_cons_of_ne_nil hne
    exact hlatest sent acked hsome
  unfold Feed.read
  by_cases hwanted : f.wanted = true
  · rw [if_pos hwanted]
    refine ⟨h.running, ?_, h.held, hrest, ?_, ?_⟩
    · rw [← List.append_assoc, List.getLast?_concat]
      exact iff_of_true hwanted rfl
    · intro sent hsome _
      exact .inr (List.mem_append_right _ List.mem_cons_self)
    · rintro sent acked hsome - rfl m hmem
      exact (if_pos hmem).trans (hlatest sent acked hsome)
  · rw [if_neg hwanted]
    have hending := h.ending (Bool.not_eq_true _ ▸ hwanted)
    refine ⟨h.running, h.asked, h.held, hrest, ?_, ?_⟩
    · intro sent hsome hkept
      exact absurd ((hending.resolve_right hkept).symm.trans hsome) nofun
    · intro sent acked hsome hkept
      exact absurd ((hending.resolve_right hkept).symm.trans hsome) nofun

omit [DecidableEq ι] [DecidableEq α] in
theorem settled (h : f.Sound) (hrequests : f.requests = []) (hevents : f.events = []) {value : α}
    (hsent : ∀ sent, f.registration = some (sent, true) → sent = value) {m : ι}
    (hmem : m ∈ f.members) : f.cell m = some value := by
  have hkept : false ∉ f.requests := by simp [hrequests]
  have hrunning : f.registration.isSome = true := by
    have hasked := h.asked.mp (h.held (List.ne_nil_of_mem hmem))
    rw [hrequests, List.append_nil] at hasked
    exact h.running.mpr hasked
  obtain ⟨⟨sent, acked⟩, hsome⟩ := Option.isSome_iff_exists.mp hrunning
  cases acked with
  | false =>
      have howed := h.owed sent hsome hkept
      simp [hrequests, hevents] at howed
  | true =>
      rw [← hsent sent hsome]
      exact h.shown sent true hsome hkept hevents m hmem

end Sound

end Feed

end Tarant.Foundation
