import RegisterConsole.Command
import RegisterConsole.Context
import RegisterConsole.Context.Image
import RegisterConsole.Cursor
import RegisterConsole.Fault
import RegisterConsole.Flags
import RegisterConsole.Journal
import RegisterConsole.Register
import RegisterConsole.Request
import RegisterConsole.Session
import RegisterConsole.Sink
import RegisterConsole.Text
import RegisterConsole.Trap
import RegisterConsole.Value
import RegisterConsole.Word
import RegisterConsole.Proofs.Requests
import RegisterConsole.Proofs.Writes
import RegisterConsole.Proofs.Truncation
import RegisterConsole.Proofs.WriteJournal
import RegisterConsole.Proofs.TableText
import RegisterConsole.Proofs.Values
import RegisterConsole.Proofs.Numerals
import RegisterConsole.Proofs.Restore
import RegisterConsole.Proofs.Policies
import RegisterConsole.Proofs.ImageLaws
import RegisterConsole.Proofs.Layout
import RegisterConsole.Proofs.LeadingWords
import RegisterConsole.Proofs.PrintedItems
import RegisterConsole.Proofs.Effects
import RegisterConsole.Proofs.Observation
import RegisterConsole.Proofs.Commuting
import RegisterConsole.Proofs.Folding
import RegisterConsole.Proofs.LetterCase
import RegisterConsole.Proofs.Names
import RegisterConsole.Proofs.WrittenField
import RegisterConsole.Proofs.Saturation
import RegisterConsole.Proofs.Endings
import RegisterConsole.Proofs.TrapCodes
