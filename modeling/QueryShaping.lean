import QueryShaping.Binding.Bind
import QueryShaping.Json.Printer
import QueryShaping.ParameterStore
import QueryShaping.Serial.Address
import QueryShaping.Serial.Config
import QueryShaping.Serial.DataType
import QueryShaping.Serial.Value
import QueryShaping.Shape.Traversal
import QueryShaping.Proofs.OrderedMap
import QueryShaping.Proofs.Select.Slots
import QueryShaping.Proofs.Binding.Defects
import QueryShaping.Proofs.Binding.Demands
import QueryShaping.Proofs.Binding.Recordings
import QueryShaping.Proofs.Binding.Paths
import QueryShaping.Proofs.Binding.Outcome
import QueryShaping.Proofs.Select.Flatten
import QueryShaping.Proofs.Shape.Meaning
import QueryShaping.Proofs.Binding.Preservation
import QueryShaping.Proofs.Select.History
import QueryShaping.Proofs.Binding.Installation
import QueryShaping.Proofs.Select.Staleness
import QueryShaping.Proofs.Binding.Visits
import QueryShaping.Proofs.Binding.Rebinding
import QueryShaping.Proofs.Binding.Agreement
import QueryShaping.Proofs.Binding.Calls
import QueryShaping.Proofs.Select.Permanence
import QueryShaping.Proofs.Binding.Resolution
import QueryShaping.Proofs.Binding.Refusal
import QueryShaping.Proofs.Select.Renaming
import QueryShaping.Proofs.Binding.Confidentiality
import QueryShaping.Proofs.Binding.Fixpoint
import QueryShaping.Proofs.Binding.Locality
import QueryShaping.Proofs.Binding.Nesting
import QueryShaping.Proofs.Binding.Parallel
import QueryShaping.Proofs.Binding.Settings
import QueryShaping.Proofs.Select.Sessions
import QueryShaping.Proofs.QueryId
import QueryShaping.Proofs.Serial.RoundTrip
import QueryShaping.Proofs.Shape.Exposure
import QueryShaping.Proofs.Store.Evaluation
import QueryShaping.Proofs.Binding.BoundNodes
import QueryShaping.Proofs.Binding.PushDown
import QueryShaping.Proofs.Select.SlotTypes
import QueryShaping.Proofs.Binding.Questions
import QueryShaping.Proofs.Binding.Spelling
import QueryShaping.Proofs.Store.Registration
import QueryShaping.Proofs.Shape.Positions
import QueryShaping.Proofs.Binding.Separation
import QueryShaping.Proofs.Binding.Log
import QueryShaping.Proofs.Binding.Lookups
