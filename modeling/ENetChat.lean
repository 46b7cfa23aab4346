import ENetChat.Chat.Addresses
import ENetChat.Chat.Announcements
import ENetChat.Chat.HostMessages
import ENetChat.Chat.Modes
import ENetChat.Chat.Payloads
import ENetChat.Chat.Pointers
import ENetChat.Network.Grammar
import ENetChat.Network.Truncation
import ENetChat.Session.Handshake
import ENetChat.Session.Membership
import ENetChat.Session.Moments
import ENetChat.Session.UserLists
import ENetChat.Session.Shutdown
import ENetChat.Util.Growth
import ENetChat.Util.StreamRuns
import ENetChat.Util.Tapes
