import SerialContract.Main
import SerialContract.Proofs.Command.Generation
import SerialContract.Proofs.Contract.Report
import SerialContract.Proofs.Dialect.Identity
import SerialContract.Proofs.Dialect.Parentheses
import SerialContract.Proofs.Dialect.Readiness
import SerialContract.Proofs.Document.Schema
import SerialContract.Proofs.Firmware.Keywords
import SerialContract.Proofs.Host.Names
import SerialContract.Proofs.Link.Candidates
import SerialContract.Proofs.Link.Pinging
import SerialContract.Proofs.Link.Reading
import SerialContract.Proofs.Link.Response
import SerialContract.Proofs.Source.Members
import SerialContract.Proofs.Source.Methods
import SerialContract.Proofs.Source.Request
import SerialContract.Proofs.Source.Targets
import SerialContract.Proofs.Wire.CanonicalPacket
import SerialContract.Proofs.Wire.Representable
import SerialContract.Proofs.Wire.TableIndex
