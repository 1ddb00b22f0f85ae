import Narrative.Story
import Narrative.Main
import Narrative.Proofs.History
import Narrative.Proofs.Stack.Layout
import Narrative.Proofs.Stack.Push
import Narrative.Proofs.Stack.Plain
import Narrative.Proofs.CallStack.Scopes
import Narrative.Proofs.CallStack.Transitions
import Narrative.Proofs.CallStack.Leaving
import Narrative.Proofs.CallStack.Plain
import Narrative.Proofs.Stack.Agreement
import Narrative.Proofs.CallStack.Agreement
import Narrative.Proofs.CallStack.Rollback
import Narrative.Proofs.Context.Outcomes
import Narrative.Proofs.Context.Rollback
import Narrative.Proofs.Stack.Below
import Narrative.Proofs.CallStack.Below
import Narrative.Proofs.Context.Below
import Narrative.Proofs.Script.Completion
import Narrative.Proofs.Script.Commit
import Narrative.Proofs.Stack.Checked
import Narrative.Proofs.CallStack.Checked
import Narrative.Proofs.Stack.Reclaim
import Narrative.Proofs.Context.Sound
import Narrative.Proofs.Stack.Retained
import Narrative.Proofs.StringTable.Collection
import Narrative.Proofs.Context.Collection
import Narrative.Proofs.StringTable.Handles
import Narrative.Proofs.CallStack.Provenance
import Narrative.Proofs.CallStack.Unwinding
import Narrative.Proofs.Context.Failure
import Narrative.Proofs.Story.Ledger
import Narrative.Proofs.Story.Handles
import Narrative.Proofs.StringTable.Texts
import Narrative.Proofs.Context.Saves
import Narrative.Proofs.Json.Grammar
import Narrative.Proofs.Json.Spelling
import Narrative.Proofs.Json.Reading
import Narrative.Proofs.Json.Integers
import Narrative.Proofs.Json.Members
import Narrative.Proofs.Json.Writing
import Narrative.Proofs.Config
import Narrative.Proofs.Script.Rendering
import Narrative.Proofs.Script.Parsing
import Narrative.Proofs.Stack.Unread
import Narrative.Proofs.Stack.Reserved
import Narrative.Proofs.Stack.Stepping
import Narrative.Proofs.Stack.Parking
import Narrative.Proofs.Stack.Overflow
import Narrative.Proofs.StringTable.Slots
import Narrative.Proofs.CallStack.Bindings
import Narrative.Proofs.Script.Resumption
import Narrative.Proofs.Name
import Narrative.Proofs.Value
import Narrative.Proofs.Script.Dump
