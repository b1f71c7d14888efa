import Evlampy.ChatClient
import Evlampy.Codec
import Evlampy.Histories
import Evlampy.Actions
import Evlampy.Sessions
import Evlampy.Keys
import Evlampy.Traces
import Evlampy.Copies
import Evlampy.Sending
import Evlampy.Reference
import Evlampy.Delivery
import Evlampy.Groups
import Evlampy.Guards
import Evlampy.Outcomes
import Evlampy.Passwords
import Evlampy.Posix
import Evlampy.Registration
import Evlampy.KeyStore
import Evlampy.Lifetimes
import Evlampy.Agreement
import Evlampy.Disconnection
import Evlampy.Interleavings
import Evlampy.Servers
import Evlampy.Symbols
import Evlampy.Blindness
import Evlampy.Directory
import Evlampy.Reading
import Evlampy.Canonical
import Evlampy.Gcm
import Evlampy.Lengths
import Evlampy.Observers
import Evlampy.Exceptions
import Evlampy.FanOut
import Evlampy.Buffers
import Evlampy.Members
import Evlampy.Upkeep
import Evlampy.Transcripts
import Evlampy.Provenance
import Evlampy.Contention
import Evlampy.Enrolment
import Evlampy.Chat
import Evlampy.Blocks
import Evlampy.Available
import Evlampy.Visits
