import Bolt8.Key.Draw
import Bolt8.Transport.FrameReader
import Bolt8.Handshake.Initiator
import Bolt8.Handshake.Responder
import Bolt8.Proofs.Handshake.Agreement
import Bolt8.Proofs.Transport.Reading
import Bolt8.Proofs.Transport.Duplex
import Bolt8.Proofs.Transport.Schedule
import Bolt8.Proofs.Transport.Accept
import Bolt8.Proofs.Transport.Line
import Bolt8.Proofs.Transport.Intruder
import Bolt8.Proofs.Handshake.Computation
import Bolt8.Proofs.Handshake.Exchange
import Bolt8.Proofs.Handshake.Binding
import Bolt8.Proofs.Handshake.Verdict
import Bolt8.Proofs.Transport.Pause
import Bolt8.Proofs.Handshake.Forecast
import Bolt8.Proofs.Handshake.Order
import Bolt8.Proofs.Connection
import Bolt8.Proofs.Checked.Reader
import Bolt8.Proofs.Aead.Opening
import Bolt8.Proofs.Transport.Parts
import Bolt8.Proofs.Transport.Retry
import Bolt8.Proofs.Transcript.Script
import Bolt8.Proofs.Key.Draw
import Bolt8.Proofs.Transport.Turns
import Bolt8.Proofs.Transport.Lost
import Bolt8.Proofs.Log
