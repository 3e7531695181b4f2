import TarkovVoice.Machine
import TarkovVoice.Coordinator.Types
import TarkovVoice.Coordinator.Hub
import TarkovVoice.Coordinator.Effects
import TarkovVoice.Coordinator.Membership
import TarkovVoice.Coordinator.Runs
import TarkovVoice.Coordinator.Mail
import TarkovVoice.Coordinator.Stranding
import TarkovVoice.Coordinator.History
import TarkovVoice.Coordinator.Forwarding
import TarkovVoice.BigEndian
import TarkovVoice.Net.Packet
import TarkovVoice.Net.Json
import TarkovVoice.Net.JsonText
import TarkovVoice.Coordinator.Wire
import TarkovVoice.Net.Rooms
import TarkovVoice.Protocol.RoomObject
import TarkovVoice.Protocol.RoomMessages
import TarkovVoice.Audio.Capture
import TarkovVoice.Audio.VoiceEngine
import TarkovVoice.Audio.Muting
import TarkovVoice.Net.DirectVoice
import TarkovVoice.Net.VoiceDelivery
import TarkovVoice.Client.Application
import TarkovVoice.Client.Effects
import TarkovVoice.Client.Numbering
import TarkovVoice.Client.Relay
import TarkovVoice.Coordinator.Departure
import TarkovVoice.Coordinator.Errors
import TarkovVoice.Coordinator.RoomList
import TarkovVoice.Audio.Adpcm
import TarkovVoice.Audio.PreSpeech
import TarkovVoice.Client.SignalingClient
import TarkovVoice.Protocol.Forwarded
import TarkovVoice.Protocol.Candidates
import TarkovVoice.Protocol.VoiceFrames
import TarkovVoice.Client.Joining
import TarkovVoice.Client.IceExchange
import TarkovVoice.Client.Departed
import TarkovVoice.Audio.Tracking
import TarkovVoice.Audio.Decoding
import TarkovVoice.Hangover
import TarkovVoice.Audio.Gate
import TarkovVoice.Net.Drained
import TarkovVoice.Audio.Playback
import TarkovVoice.Audio.Jitter
import TarkovVoice.Chunks
import TarkovVoice.Audio.Framing
import TarkovVoice.Audio.Resampling
import TarkovVoice.Client.SessionRuns
import TarkovVoice.Client.MuteSync
import TarkovVoice.Client.SavedSettings
import TarkovVoice.Client.Conversions
import TarkovVoice.Client.Url
import TarkovVoice.Net.Stun
import TarkovVoice.Client.Requests
import TarkovVoice.Client.Nick
import TarkovVoice.Mixing
import TarkovVoice.Security.PasswordGate
import TarkovVoice.Security.JoinProof
import TarkovVoice.Coordinator.HostNick
import TarkovVoice.Audio.Pcm
import TarkovVoice.Audio.CheckedAdpcm
import TarkovVoice.JsonSyntax
import TarkovVoice.Net.Scanning
import TarkovVoice.Coordinator.Conversation
import TarkovVoice.Client.Inbox
import TarkovVoice.Client.Roster
import TarkovVoice.Protocol.Genuine
import TarkovVoice.Protocol.Mirror
import TarkovVoice.Coordinator.Registry
import TarkovVoice.Coordinator.Lifecycle
import TarkovVoice.Coordinator.Channel
import TarkovVoice.Coordinator.Answers
import TarkovVoice.Audio.Provenance
import TarkovVoice.Client.Heard
import TarkovVoice.Net.Tracked
import TarkovVoice.Net.Timing
import TarkovVoice.Net.Gathering
import TarkovVoice.Protocol.Gathered
import TarkovVoice.Net.Connecting
import TarkovVoice.JsonMembers
import TarkovVoice.Coordinator.Unmarshal
import TarkovVoice.Protocol.ClientTexts
import TarkovVoice.Interleaving
