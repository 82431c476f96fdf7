import Vetting.Check.Arguments
import Vetting.Check.Basic
import Vetting.Check.Integer
import Vetting.Check.Refusal
import Vetting.Check.Stock
import Vetting.Event
import Vetting.Expectation
import Vetting.Fault
import Vetting.Field.Basic
import Vetting.Field.Source
import Vetting.Json.Basic
import Vetting.Json.Binary64
import Vetting.Json.Number
import Vetting.Json.Quoted
import Vetting.Json.Reader
import Vetting.Json.Shortest
import Vetting.Json.Token
import Vetting.Json.Typed
import Vetting.Keys
import Vetting.Lineage.Basic
import Vetting.Lineage.Linearization
import Vetting.Lineage.Walk
import Vetting.NameMap
import Vetting.NameSet
import Vetting.Proofs.Check.Restriction
import Vetting.Proofs.Check.Writing
import Vetting.Proofs.Check.Yielding
import Vetting.Proofs.Field.Identifiers
import Vetting.Proofs.Field.Memo
import Vetting.Proofs.Field.Steady
import Vetting.Proofs.History
import Vetting.Proofs.Json.Quoted
import Vetting.Proofs.Json.RoundTrip
import Vetting.Proofs.Json.Written
import Vetting.Proofs.Lineage.Acceptance
import Vetting.Proofs.Lineage.Cycle
import Vetting.Proofs.Lineage.History
import Vetting.Proofs.Lineage.Merging
import Vetting.Proofs.Lineage.Walk
import Vetting.Proofs.Lists
import Vetting.Proofs.Report.Grouping
import Vetting.Proofs.Report.Merge
import Vetting.Proofs.Report.Monoid
import Vetting.Proofs.Report.Pointwise
import Vetting.Proofs.Report.Pruning
import Vetting.Proofs.Report.Sameness
import Vetting.Proofs.Rule.Afresh
import Vetting.Proofs.Rule.Draft
import Vetting.Proofs.Rule.Invocation
import Vetting.Proofs.Rule.Layers
import Vetting.Proofs.Rule.Selection
import Vetting.Proofs.RuleBook.Batch
import Vetting.Proofs.RuleBook.Identification
import Vetting.Proofs.RuleBook.Inheritance
import Vetting.Proofs.RuleBook.Library
import Vetting.Proofs.RuleBook.Log
import Vetting.Proofs.RuleBook.Lookup
import Vetting.Proofs.RuleBook.Naming
import Vetting.Proofs.RuleBook.Registration
import Vetting.Proofs.RuleBook.Repetition
import Vetting.Proofs.RuleBook.Session
import Vetting.Proofs.Validation.Course
import Vetting.Proofs.Validation.Dispatch
import Vetting.Proofs.Validation.Events
import Vetting.Proofs.Validation.Gathering
import Vetting.Proofs.Validation.Halt
import Vetting.Proofs.Validation.Memory
import Vetting.Proofs.Validation.Order
import Vetting.Proofs.Validation.Place
import Vetting.Proofs.Validation.Recall
import Vetting.Proofs.Validation.Relevance
import Vetting.Proofs.Validation.Restart
import Vetting.Proofs.Validation.Roster
import Vetting.Proofs.Validation.Silence
import Vetting.Record
import Vetting.Report.Basic
import Vetting.Report.Finding
import Vetting.Report.Json
import Vetting.Report.Tree
import Vetting.Rule.Basic
import Vetting.Rule.Draft
import Vetting.Rule.Invocation
import Vetting.Rule.Signature
import Vetting.RuleBook.Basic
import Vetting.RuleBook.Batch
import Vetting.RuleBook.Dependency
import Vetting.Schema
import Vetting.Table
import Vetting.Text.Shown
import Vetting.Text.Visible
import Vetting.Validation.Basic
