import BringUp.Bus.Script
import BringUp.Console.Recorder
import BringUp.Board.Platform
import BringUp.Proofs.Serial.Settle
import BringUp.Proofs.Serial.Lifecycle
import BringUp.Proofs.Serial.Modulation
import BringUp.Proofs.Serial.Nearest
import BringUp.Proofs.Serial.Reach
import BringUp.Proofs.Board.Delivery
import BringUp.Proofs.Board.Coverage
import BringUp.Proofs.Vendor.Release
import BringUp.Proofs.Board.Coherence
import BringUp.Proofs.Board.Handshakes
import BringUp.Proofs.Vendor.Privileges
import BringUp.Proofs.Board.Privileges
import BringUp.Proofs.Board.Accesses
import BringUp.Proofs.Machine.Bounded
import BringUp.Proofs.Machine.Plain
import BringUp.Proofs.Serial.Contents
import BringUp.Proofs.Serial.Retry
import BringUp.Proofs.Pma.Napot
import BringUp.Proofs.Register.Mirror
import BringUp.Proofs.Console.Routing
import BringUp.Proofs.Serial.Banked
import BringUp.Proofs.Vendor.Interference
import BringUp.Proofs.Vendor.Emptying
import BringUp.Proofs.Machine.Poll
import BringUp.Proofs.Board.Guard
import BringUp.Proofs.Board.Protection
import BringUp.Proofs.Machine.Conversion
import BringUp.Proofs.Console.Splitting
import BringUp.Proofs.Vendor.Operands
import BringUp.Proofs.Board.Boot
import BringUp.Proofs.Bus.Contents
