import ENetChat.Chat.RunLaws

/-!
# The host's table

`SlotState` follows one peer slot through the events of ENet: free, taken by
a peer, and registered by the first USERNAME of the connection. `host_table`:
while events keep ENet's contract, `m_users` is the nickname under 0 and the
registrations of the slots, and `m_peers` holds the slots that are taken.
-/

namespace ENetChat

variable {u : Unspecified} {nick : Bytes} {app : ChatApp} {w : ENetWrapper}
  {p q : PeerId} {z : Bool}
  {event : AppEvent} {id : UserId} {peer : ENetPeer}

inductive SlotState where
  | free
  | connected
  | registered (user : UserInfo)
  deriving DecidableEq, Repr

namespace SlotState

def user? : SlotState → Option UserInfo
  | registered user => some user
  | _ => none

/-- The events of slot `p` in their order: CONNECT, RECEIVEs, DISCONNECT. -/
def Allows (p : PeerId) (s : SlotState) : AppEvent → Prop
  | .network (.connect peer) => peer.incomingPeerID = p → s = free
  | .network (.disconnect peer) => peer.incomingPeerID = p → s ≠ free
  | .network (.receive peer _) => peer.incomingPeerID = p → s ≠ free
  | _ => True

instance (p : PeerId) (s : SlotState) : (event : AppEvent) → Decidable (s.Allows p event)
  | .network (.connect peer) => inferInstanceAs (Decidable (peer.incomingPeerID = p → s = free))
  | .network (.disconnect peer) => inferInstanceAs (Decidable (peer.incomingPeerID = p → s ≠ free))
  | .network (.receive peer _) => inferInstanceAs (Decidable (peer.incomingPeerID = p → s ≠ free))
  | .network .none => isTrue trivial
  | .input _ => isTrue trivial

/-- A USERNAME that is not the first of its connection changes nothing. -/
def receive (s : SlotState) (p : PeerId) (address : Address) (pkg : Option Package) : SlotState :=
  match s, pkg with
  | connected, some (.username pckt) =>
    registered { userId := toUserID p, name := pckt.username, address }
  | _, _ => s

def next (p : PeerId) (s : SlotState) : AppEvent → SlotState
  | .network (.connect peer) => if peer.incomingPeerID = p then connected else s
  | .network (.disconnect peer) => if peer.incomingPeerID = p then free else s
  | .network (.receive peer packet) =>
    if peer.incomingPeerID = p then s.receive p peer.address packet.package? else s
  | _ => s

def after (p : PeerId) (events : List AppEvent) : SlotState := events.foldl (next p) free

def Obeyed (p : PeerId) : SlotState → List AppEvent → Prop
  | _, [] => True
  | s, event :: events => s.Allows p event ∧ Obeyed p (s.next p event) events

instance decidableObeyed (p : PeerId) :
    (s : SlotState) → (events : List AppEvent) → Decidable (Obeyed p s events)
  | _, [] => isTrue trivial
  | s, event :: events =>
    have := decidableObeyed p (s.next p event) events
    inferInstanceAs (Decidable (s.Allows p event ∧ Obeyed p (s.next p event) events))

end SlotState

open SlotState

def AppEvent.slot? : AppEvent → Option PeerId
  | .network (.connect peer) => some peer.incomingPeerID
  | .network (.disconnect peer) => some peer.incomingPeerID
  | .network (.receive peer _) => some peer.incomingPeerID
  | _ => none

theorem obeyed_of_elsewhere (h : ∀ event ∈ events, event.slot? ≠ some p) : Obeyed p s events := by
  induction events generalizing s with
  | nil => trivial
  | cons event events ih =>
    have hne := h event (by simp)
    refine ⟨?_, ih fun x hx => h x (by simp [hx])⟩
    cases event with
    | input line => trivial
    | network ev =>
      cases ev with
      | none => trivial
      | _ => exact fun heq => absurd (congrArg some heq) hne

/-- ENet's contract, slot by slot. -/
def Contract (events : List AppEvent) : Prop := ∀ p, Obeyed p free events

/-- The host's maps agree with the slots. -/
structure Tracks (app : ChatApp) (slots : PeerId → SlotState) : Prop where
  users : ∀ {p}, p.toNat < maxConnections → app.mUsers.user? (toUserID p) = (slots p).user?
  peers : ∀ {net p}, app.mEnet = some net → (net.mPeers.contains p = true ↔ slots p ≠ free)
  ids : ∀ {net : ENetWrapper} {p : PeerId} {peer : ENetPeer},
    app.mEnet = some net → net.mPeers[p]? = some peer →
    peer.incomingPeerID = p

theorem toUserID_inj (h : toUserID p = toUserID q) : p = q := by
  simpa [toUserID] using h

theorem Hosting.slot (h : Hosting nick app) (hu : app.mUsers.user? id = some user) :
    id = 0 ∨ ∃ p : PeerId, p.toNat < maxConnections ∧ id = toUserID p := by
  by_cases h0 : id = 0
  · exact .inl h0
  · have hle := (h.slots hu).1
    have hpos : id.toNat ≠ 0 := fun hn => h0 (UInt16.toNat_inj.mp (by simpa using hn))
    have hsub : (id - 1).toNat = id.toNat - 1 := by
      simp only [UInt16.toNat_sub, UInt16.toNat_one]
      have := id.toNat_lt
      omega
    exact .inr ⟨id - 1, by rw [hsub]; omega, by simp [toUserID]⟩

theorem Tracks.opened (h : Opened nick app) : Tracks app fun _ => free := by
  refine ⟨fun {p} hp => ?_, fun hnet => ?_, fun hnet hp => ?_⟩
  · exact h.user?_none (toUserID_ne_zero hp)
  · rw [h.peers] at hnet
    cases hnet
    simp
  · rw [h.peers] at hnet
    cases hnet
    simp at hp

/-- Whether the peer was registered or not, its id is gone. -/
theorem hostNext_disconnect (h : Hosting nick app) :
    (hostNext nick w app (.network (.disconnect peer))).1.mUsers.user? id =
      if id = toUserID peer.incomingPeerID then none else app.mUsers.user? id := by
  cases hu : app.mUsers.user? (toUserID peer.incomingPeerID) with
  | none =>
    simp only [hostNext, hu]
    split
    · next heq => rw [heq, hu]
    · rfl
  | some user =>
    simp only [hostNext, hu, ChatApp.withoutUser, h.tidy.userId hu]
    exact UserMap.user?_erase _

theorem hostNext_disconnect_net : (hostNext nick w app (.network (.disconnect peer))).1.mEnet =
    some { w with mPeers := w.mPeers.erase peer.incomingPeerID } := by
  cases hu : app.mUsers.user? (toUserID peer.incomingPeerID) <;> simp only [hostNext, hu]

theorem next_receive
    (hne : peer.incomingPeerID ≠ p ∨ ∀ pckt, packet.package? ≠ some (.username pckt)) :
    SlotState.next p s (.network (.receive peer packet)) = s := by
  obtain hne | hne := hne
  · exact if_neg hne
  · simp only [SlotState.next, SlotState.receive]
    split
    · split
      · next heq => exact absurd heq (hne _)
      · rfl
    · rfl

theorem next_receive_free :
    SlotState.next p s (.network (.receive peer packet)) = free ↔ s = free := by
  simp only [SlotState.next, SlotState.receive]
  split
  · split <;> simp
  · rfl

theorem Tracks.step (t : Tracks app slots) (h : Hosting nick app) (hw : app.mEnet = some w)
    (hallow : ∀ p, (slots p).Allows p event)
    (hstate : (hostNext nick w app event).1.mState = .to .chatStateHost) :
    Tracks (hostNext nick w app event).1 fun p => (slots p).next p event := by
  cases event with
  | input line =>
    show Tracks _ slots
    by_cases hl : line.text = []
    · simpa [hostNext, hl] using t
    · by_cases hi : line.text = exitCommand
      · simp only [hostNext, hi, if_true] at hstate
        cases hstate
      · simpa [hostNext, hl, hi] using t
  | network ev =>
    cases ev with
    | none => exact t
    | connect peer =>
      refine ⟨fun {p} hp => ?_, fun {net p} hnet => ?_, fun {net p peer'} hnet hget => ?_⟩
      · show app.mUsers.user? (toUserID p) = _
        by_cases heq : peer.incomingPeerID = p
        · have hfree := hallow p heq
          simp [SlotState.next, heq, t.users hp, hfree, SlotState.user?]
        · simp [SlotState.next, heq, t.users hp]
      · cases hnet
        by_cases heq : peer.incomingPeerID = p
        · simp [SlotState.next, heq]
        · simp [SlotState.next, heq, t.peers hw, Std.ExtTreeMap.contains_insert]
      · cases hnet
        rw [Std.ExtTreeMap.getElem?_insert] at hget
        split at hget
        · next heq => cases hget; simpa using heq
        · exact t.ids hw hget
    | disconnect peer =>
      refine ⟨fun {p} hp => ?_, fun {net p} hnet => ?_, fun {net p peer'} hnet hget => ?_⟩
      · rw [hostNext_disconnect h]
        by_cases heq : peer.incomingPeerID = p
        · simp [SlotState.next, heq, SlotState.user?]
        · have hne : toUserID p ≠ toUserID peer.incomingPeerID := fun h => heq (toUserID_inj h.symm)
          simp [SlotState.next, heq, hne, t.users hp]
      · rw [hostNext_disconnect_net] at hnet
        cases hnet
        by_cases heq : peer.incomingPeerID = p
        · simp [SlotState.next, heq]
        · simp [SlotState.next, heq, t.peers hw, Std.ExtTreeMap.contains_erase]
      · rw [hostNext_disconnect_net] at hnet
        cases hnet
        rw [Std.ExtTreeMap.getElem?_erase] at hget
        split at hget
        · cases hget
        · exact t.ids hw hget
    | receive peer packet =>
      by_cases hu : ∃ pckt, packet.package? = some (.username pckt)
      · obtain ⟨pckt, hp⟩ := hu
        simp only [hostNext, hp, hostReceive]
        refine ⟨fun {p} hp' => ?_, fun {net p} hnet => ?_, fun {net p peer'} hnet hget => ?_⟩
        · rw [user?_insertUser, t.users hp']
          by_cases heq : peer.incomingPeerID = p
          · have hfree := hallow p heq
            cases hs : slots p with
            | free => exact absurd hs hfree
            | connected =>
              simp [SlotState.next, SlotState.receive, hp, heq, SlotState.user?,
                NetworkTraffic.announces, NetworkTraffic.ofPeer]
            | registered user => simp [SlotState.next, SlotState.receive, SlotState.user?]
          · have hne : toUserID p ≠ toUserID peer.incomingPeerID :=
              fun h => heq (toUserID_inj h.symm)
            simp [next_receive (.inl heq), NetworkTraffic.announces, NetworkTraffic.ofPeer, hne]
        · rw [Ne, next_receive_free]
          exact t.peers hnet
        · exact t.ids hnet hget
      · have hnot : ∀ pckt, packet.package? ≠ some (.username pckt) := fun pckt hp => hu ⟨pckt, hp⟩
        have hsame : (hostNext nick w app (.network (.receive peer packet))).1 = app := by
          simp only [hostNext, hostReceive]
          split
          · next heq => exact absurd heq (hnot _)
          · split <;> rfl
          · rfl
        simp only [hsame, next_receive (.inr hnot)]
        exact t

/-- A host that has quit does not come back. -/
theorem after_quit (hq : app.mState = .to .quitState) (hrun : app.after hs = some app') :
    app'.mState = .to .quitState := by
  induction hs generalizing app with
  | nil => cases hrun; exact hq
  | cons x hs ih =>
    simp only [ChatApp.after] at hrun
    split at hrun
    · next hw => exact ih (quit_step hq hw).1 hrun
    · cases hrun

theorem Tracks.after (t : Tracks app slots) (h : Hosting nick app)
    (hobey : ∀ p, Obeyed p (slots p) (hs.map Happening.event)) (hrun : app.after hs = some app')
    (hstate : app'.mState = .to .chatStateHost) :
    Hosting nick app' ∧
      Tracks app' fun p => (hs.map Happening.event).foldl (SlotState.next p) (slots p) := by
  induction hs generalizing app slots with
  | nil => cases hrun; exact ⟨h, t⟩
  | cons x hs ih =>
    simp only [ChatApp.after] at hrun
    split at hrun
    · next t' hr =>
      obtain ⟨w, hw⟩ := h.net
      have heq := h.handle_ok hw hr
      obtain hnext | hquit := h.step hr
      · subst heq
        exact ih (t.step h hw (fun p => (hobey p).1) hnext.state) hnext (fun p => (hobey p).2) hrun
      · have := after_quit (by rw [hquit]; rfl) hrun
        rw [hstate] at this
        cases this
    · cases hrun

/-- In every run of a host whose events keep the contract, as long as it is a
host: entry 0 is its own, the entry of each slot is the registration of its
connection, there are no others, and `m_peers` holds the slots taken. -/
theorem host_table (hstart : startHost u z nickname = some app₀)
    (hobey : Contract (hs.map Happening.event)) (hrun : app₀.after hs = some app)
    (hstate : app.mState = .to .chatStateHost) :
    let slot (p : PeerId) := SlotState.after p (hs.map Happening.event)
    app.mUsers.user? 0 = some { userId := 0, name := nickname.text } ∧
    (∀ p : PeerId, p.toNat < maxConnections →
      app.mUsers.user? (toUserID p) = (slot p).user?) ∧
    (∀ id user, app.mUsers.user? id = some user →
      id = 0 ∨ ∃ p : PeerId, p.toNat < maxConnections ∧ id = toUserID p) ∧
    ∃ net, app.mEnet = some net ∧ ∀ p, (net.mPeers.contains p = true ↔ slot p ≠ free) ∧
      ∀ peer, net.mPeers[p]? = some peer → peer.incomingPeerID = p := by
  obtain ⟨app', happ', hopen⟩ := startHost_opened u z nickname
  rw [hstart] at happ'
  cases happ'
  obtain ⟨h, t⟩ := (Tracks.opened hopen).after hopen.toHosting hobey hrun hstate
  obtain ⟨net, hnet⟩ := h.net
  exact ⟨h.user?_zero, fun p hp => t.users hp, fun id user hu => h.slot hu, net, hnet,
    fun p => ⟨t.peers hnet, fun peer hp => t.ids hnet hp⟩⟩

/-- A slot is used by Bob and then by Cid, who says a second name. -/
def twoVisits : List Happening :=
  let hello (name : Bytes) (fits : (Package.username { username := name }).layout.length ≤
      maximumPacketSize := by decide) : ENetEvent :=
    .receive (.ofSlot 0) ⟨(Package.username { username := name }).layout, 0, fits⟩
  [.connect (.ofSlot 0), hello (ascii "Bob"), .disconnect (.ofSlot 0), .connect (.ofSlot 0),
    hello (ascii "Cid"), hello (ascii "Eve")].map fun e => ⟨default, .network e⟩

theorem twoVisits_contract : Contract (twoVisits.map Happening.event) := by
  intro p
  by_cases h : (ENetPeer.ofSlot 0).incomingPeerID = p
  · subst h
    decide
  · refine obeyed_of_elsewhere fun event he => ?_
    have hslot : ∀ event ∈ twoVisits.map Happening.event,
        event.slot? = some (ENetPeer.ofSlot 0).incomingPeerID := by decide
    rw [hslot event he]
    exact fun heq => h (Option.some.inj heq)

theorem twoVisits_run :
    ((startHost default true ann).bind (·.after twoVisits)).map (·.mState) =
      some (.to .chatStateHost) := by decide +kernel

theorem host_table_twoVisits : ∃ app₀ app, startHost default true ann = some app₀ ∧
    app₀.after twoVisits = some app ∧
    app.mUsers.user? (toUserID 0) =
      (SlotState.after 0 (twoVisits.map Happening.event)).user? := by
  obtain ⟨app, hrun, hstate⟩ := Option.map_eq_some_iff.mp twoVisits_run
  obtain ⟨app₀, hstart, hrun⟩ := Option.bind_eq_some_iff.mp hrun
  exact ⟨app₀, app, hstart, hrun,
    (host_table hstart twoVisits_contract hrun hstate).2.1 0 (by decide)⟩

/-- The slot is Cid's. -/
example : (SlotState.after 0 (twoVisits.map Happening.event)).user? =
    some { userId := 1, name := ascii "Cid" } := by decide

end ENetChat
