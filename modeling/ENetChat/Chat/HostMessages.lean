import ENetChat.Chat.Delivery

/-!
# Messages to a host

`ChatState_Host::receiveMessageEvent` goes by the `user_id` that the packet
names, not by the peer that sent it. `host_survives_iff` and
`host_authentic_iff` say for which packets that is harmless.
-/

namespace ENetChat

open Exec LittleEndian ByteStream

variable {u : Unspecified} {app : ChatApp} {z : Bool} {nick : Bytes} {pckt : MessagePackage}

-- ---------------------------------------------------------------------------
-- Survival
-- ---------------------------------------------------------------------------

/-- The host handles a well-formed packet to its end. -/
def Survives (app : ChatApp) (h : Happening) : Prop :=
  ∀ peer packet, h.event = .network (.receive peer packet) → app.mState = .to .chatStateHost →
    WellFormed packet.data → Completes (listen h.u (.receive peer packet)) ⟨app, []⟩

def KnownAuthor (app : ChatApp) (h : Happening) : Prop :=
  ∀ peer packet pckt, h.event = .network (.receive peer packet) →
    app.mState = .to .chatStateHost → Package.Decodes packet.data (.message pckt) →
      app.mUsers.contains pckt.userId = true

theorem survives_iff (h : Reachable z app) (hap : Happening) :
    Survives app hap ↔ KnownAuthor app hap := by
  constructor
  · intro hsurv peer packet pckt hev hs hd
    have hsize := Nat.le_trans (decodes_length hd) packet.fits
    have hc : Completes (receiveEvent hap.u (.ofPeer peer packet.data)) ⟨app, []⟩ :=
      hsurv peer packet hev hs ⟨_, hd⟩
    rw [receiveEvent_decodes packet.lt hd] at hc
    have := (session_receive_completes [] h (.inl hs) peer.inHost hsize).mp hc
    simpa [ChatApp.Accepts, hs] using this
  · rintro hknown peer packet hev hs ⟨pkg, hd⟩
    have hsize := Nat.le_trans (decodes_length hd) packet.fits
    show Completes (receiveEvent hap.u (.ofPeer peer packet.data)) ⟨app, []⟩
    rw [receiveEvent_decodes packet.lt hd]
    refine (session_receive_completes [] h (.inl hs) peer.inHost hsize).mpr ?_
    cases pkg with
    | message pckt => simpa [ChatApp.Accepts, hs] using hknown peer packet pckt hev hs hd
    | _ => simp [ChatApp.Accepts, hs]

/-- A host survives the well-formed packets of a run exactly when every
MESSAGE names a user of the moment. -/
theorem host_survives_iff (h : Reachable z app) (hs : List Happening) :
    app.Along Survives hs ↔ app.Along KnownAuthor hs :=
  Reachable.along_congr (fun h => survives_iff h) h

/-- A peer that has sent no USERNAME sends a MESSAGE as user 9. -/
def unknownAuthor : Happening where
  u := default
  event := .network (.receive (.ofSlot 0) ⟨[4, 9, 0, 1, 0, 0, 0, 0, 0, 0, 0, 33], 0, by decide⟩)

theorem host_survives_started : ∃ app, startHost default true ann = some app ∧
    (app.Along Survives [unknownAuthor] ↔ app.Along KnownAuthor [unknownAuthor]) := by
  obtain ⟨app, happ, -⟩ := startHost_opened default true ann
  exact ⟨app, happ, host_survives_iff (reachable_started happ) _⟩

theorem unknownAuthor_decodes : Package.Decodes [4, 9, 0, 1, 0, 0, 0, 0, 0, 0, 0, 33]
    (.message { userId := 9, message := [33] }) :=
  ⟨by decide, by decide, [], by decide, by decide⟩

/-- `user->name` goes through NULL. -/
theorem unknown_author_crashes : ∃ app, startHost default true ann = some app ∧
    ¬ app.Along Survives [unknownAuthor] := by
  obtain ⟨app, happ, hopen⟩ := startHost_opened default true ann
  refine ⟨app, happ, fun h => ?_⟩
  have hknown := (survives_iff (reachable_started happ) unknownAuthor).mp h.1 _ _ _ rfl hopen.state
    unknownAuthor_decodes
  rw [UserMap.contains_eq, hopen.user?_none (by decide)] at hknown
  cases hknown

-- ---------------------------------------------------------------------------
-- Authenticity
-- ---------------------------------------------------------------------------

/-- What was done outside, to the end or to the halt. -/
def outOf : EStateM.Result Halt World Unit → List Effect
  | .ok _ w => w.out
  | .error _ w => w.out

/-- A MESSAGE is printed and relayed as its sender's, or, from a sender that
is not registered, not at all. -/
def Authentic (app : ChatApp) (h : Happening) : Prop :=
  ∀ peer packet pckt, h.event = .network (.receive peer packet) →
    app.mState = .to .chatStateHost → Package.Decodes packet.data (.message pckt) →
      match app.mUsers.user? (toUserID peer.incomingPeerID) with
      | some user => ∃ w, app.exec (listen h.u (.receive peer packet)) = .ok () w ∧
          w.out = relay user.name false { pckt with userId := toUserID peer.incomingPeerID }
      | none => ∀ effect ∈ outOf (app.exec (listen h.u (.receive peer packet))), effect.quiet

/-- A registered peer sends messages under its own id, any other under an id
that is nobody's. -/
def Sincere (app : ChatApp) (h : Happening) : Prop :=
  ∀ peer packet pckt, h.event = .network (.receive peer packet) →
    app.mState = .to .chatStateHost → Package.Decodes packet.data (.message pckt) →
      match app.mUsers.user? (toUserID peer.incomingPeerID) with
      | some _ => pckt.userId = toUserID peer.incomingPeerID
      | none => app.mUsers.contains pckt.userId = false

theorem relay_userId (h : relay name l p = relay name' l' p') : p.userId = p'.userId := by
  simp only [relay, List.cons.injEq, Effect.enet.injEq, ENetCall.hostBroadcast.injEq] at h
  have hbody := (List.cons.inj h.2.1.1).2
  have hid := (List.append_inj hbody (by simp)).1
  exact UInt16.toNat_inj.mp (toLE_inj p.userId.toNat_lt p'.userId.toNat_lt hid)

theorem relay_not_quiet : ¬ ∀ effect ∈ relay name l p, effect.quiet := by
  simp [relay, Effect.quiet]

theorem authentic_iff (h : Reachable z app) (hap : Happening) :
    Authentic app hap ↔ Sincere app hap := by
  refine forall_congr' fun peer => forall_congr' fun packet => forall_congr' fun pckt =>
    forall_congr' fun hev => forall_congr' fun hs => forall_congr' fun hd => ?_
  obtain ⟨nick, hh⟩ := h.hosting hs
  obtain ⟨net, hw⟩ := hh.net
  have hm := message_fits hd
  have hexec : app.exec (listen hap.u (.receive peer packet)) =
      (receivePackage hap.u (.ofPeer peer packet.data) (.message pckt)).run ⟨app, []⟩ := by
    show (receiveEvent hap.u (.ofPeer peer packet.data)).run ⟨app, []⟩ = _
    rw [receiveEvent_decodes packet.lt hd]
  rw [hexec, UserMap.contains_eq]
  cases hp : app.mUsers.user? (toUserID peer.incomingPeerID) with
  | some user =>
    constructor
    · rintro ⟨w, hrun, hout⟩
      cases hu : app.mUsers.user? pckt.userId with
      | none => rw [hh.receive_message_null hu] at hrun; cases hrun
      | some user' =>
        rw [hh.receive_message _ hw hu hm] at hrun
        cases hrun
        exact relay_userId hout
    · rintro hid
      rw [← hid] at hp ⊢
      exact ⟨_, hh.receive_message _ hw hp hm, rfl⟩
  | none =>
    cases hu : app.mUsers.user? pckt.userId with
    | none => simp [hh.receive_message_null hu, outOf]
    | some user' =>
      rw [hh.receive_message _ hw hu hm]
      exact iff_of_false relay_not_quiet (by simp)

/-- A host is true to its senders, all along a run, exactly when they are. -/
theorem host_authentic_iff (h : Reachable z app) (hs : List Happening) :
    app.Along Authentic hs ↔ app.Along Sincere hs :=
  Reachable.along_congr (fun h => authentic_iff h) h

/-- A peer that is not registered sends a MESSAGE as user 0, the host. -/
def forgedAuthor : Happening where
  u := default
  event := .network (.receive (.ofSlot 0) ⟨[4, 0, 0, 1, 0, 0, 0, 0, 0, 0, 0, 33], 0, by decide⟩)

theorem host_authentic_started : ∃ app, startHost default true ann = some app ∧
    (app.Along Authentic [forgedAuthor] ↔ app.Along Sincere [forgedAuthor]) := by
  obtain ⟨app, happ, -⟩ := startHost_opened default true ann
  exact ⟨app, happ, host_authentic_iff (reachable_started happ) _⟩

theorem forgedAuthor_decodes : Package.Decodes [4, 0, 0, 1, 0, 0, 0, 0, 0, 0, 0, 33]
    (.message { userId := 0, message := [33] }) :=
  ⟨by decide, by decide, [], by decide, by decide⟩

/-- The host prints "!" as its own and sends it to everyone as its own. -/
theorem forged_author_relayed : ∃ app, startHost default true ann = some app ∧
    ¬ app.Along Authentic [forgedAuthor] := by
  obtain ⟨app, happ, hopen⟩ := startHost_opened default true ann
  refine ⟨app, happ, fun h => ?_⟩
  have hsincere := (authentic_iff (reachable_started happ) forgedAuthor).mp h.1 _ _ _ rfl
    hopen.state forgedAuthor_decodes
  rw [hopen.user?_none (by decide)] at hsincere
  simp only [UserMap.contains_eq, hopen.user?_zero, Option.isSome_some, Bool.true_eq_false]
    at hsincere

end ENetChat
