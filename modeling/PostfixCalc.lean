import PostfixCalc.Application
import PostfixCalc.Display
import PostfixCalc.Function.Builtin
import PostfixCalc.Main
import PostfixCalc.Service.Connection
import PostfixCalc.Session.Shared
import PostfixCalc.Stack.Script
import PostfixCalc.Stack.Memory
import PostfixCalc.Term
import PostfixCalc.Decimal.Numeral
import PostfixCalc.Proofs.Application
import PostfixCalc.Proofs.Text.Character
import PostfixCalc.Proofs.Token.Scan
import PostfixCalc.Proofs.Registry
import PostfixCalc.Proofs.Session
import PostfixCalc.Proofs.Term
import PostfixCalc.Proofs.Function.Builtin
import PostfixCalc.Proofs.Session.Types
import PostfixCalc.Proofs.Session.Height
import PostfixCalc.Proofs.Service.Framing
import PostfixCalc.Proofs.Text.Utf8
import PostfixCalc.Proofs.Json.Escape
import PostfixCalc.Proofs.Json.RoundTrip
import PostfixCalc.Proofs.Service.Handling
import PostfixCalc.Proofs.Service.Wire
import PostfixCalc.Proofs.Json.Limits
import PostfixCalc.Proofs.Service.Resilience
import PostfixCalc.Proofs.Session.Failure
import PostfixCalc.Proofs.Binary.Nearest
import PostfixCalc.Proofs.Session.Validation
import PostfixCalc.Proofs.Session.Extension
import PostfixCalc.Proofs.Session.Isolation
import PostfixCalc.Proofs.Decimal
import PostfixCalc.Proofs.Token.Written
import PostfixCalc.Proofs.Binary.Twice
import PostfixCalc.Proofs.Session.Listing
import PostfixCalc.Proofs.Token.Single
import PostfixCalc.Proofs.Decimal.Midpoint
import PostfixCalc.Proofs.Session.Provenance
import PostfixCalc.Proofs.FrontEnds
import PostfixCalc.Proofs.Application.InPlace
import PostfixCalc.Proofs.ReadLoop
import PostfixCalc.Proofs.Token.Spelling
import PostfixCalc.Proofs.Text.Spacing
import PostfixCalc.Proofs.Token.Callable
import PostfixCalc.Proofs.Token.Script
import PostfixCalc.Proofs.Service.Asking
import PostfixCalc.Proofs.Service.Reporting
import PostfixCalc.Proofs.Stack.Script
import PostfixCalc.Proofs.Function.Operation
import PostfixCalc.Proofs.Function.Text
import PostfixCalc.Proofs.Display.Rows
import PostfixCalc.Proofs.Display.Colours
import PostfixCalc.Proofs.Stack.Memory
