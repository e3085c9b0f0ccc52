import ScalarLang.Main
import ScalarLang.Proofs.Grammar.Tiers
import ScalarLang.Proofs.Session.Realization
import ScalarLang.Proofs.Session.Simulation
import ScalarLang.Proofs.Grammar.Completeness
import ScalarLang.Proofs.Grammar.Statement
import ScalarLang.Proofs.Grammar.Program
import ScalarLang.Proofs.Session.Compilation
import ScalarLang.Proofs.Evaluation.Partition
import ScalarLang.Proofs.Session.Rotation
import ScalarLang.Proofs.Session.Failure
import ScalarLang.Proofs.Session.Residence
import ScalarLang.Proofs.Session.Safety
import ScalarLang.Proofs.Session.Admission
import ScalarLang.Proofs.Session.Binding
import ScalarLang.Proofs.Session.Arity
import ScalarLang.Proofs.Grammar.Semicolon
import ScalarLang.Proofs.Grammar.Spans
import ScalarLang.Proofs.Session.Bindings
import ScalarLang.Proofs.Session.History
import ScalarLang.Proofs.Session.Records
import ScalarLang.Proofs.Scanning.Munch
import ScalarLang.Proofs.Scanning.Partition
import ScalarLang.Proofs.Scanning.Printing
import ScalarLang.Proofs.Evaluation.Equivalence
import ScalarLang.Proofs.Grammar.Places
import ScalarLang.Proofs.Session.Diagnostics
import ScalarLang.Proofs.Grammar.Recovery
import ScalarLang.Proofs.Session.Lines
import ScalarLang.Proofs.Validity.NormalForm
import ScalarLang.Proofs.Validity.Execution
import ScalarLang.Proofs.Evaluation.Stack
import ScalarLang.Proofs.Evaluation.Bound
import ScalarLang.Proofs.Evaluation.Limit
import ScalarLang.Proofs.Session.Keeping
import ScalarLang.Proofs.Session.Filling
import ScalarLang.Proofs.Session.Clashes
import ScalarLang.Proofs.Grammar.Prefixes
import ScalarLang.Proofs.Grammar.Ranges
import ScalarLang.Proofs.Session.Unloading
import ScalarLang.Proofs.Session.Restoration
import ScalarLang.Proofs.Validity.Faults
import ScalarLang.Proofs.Validity.Findings
import ScalarLang.Proofs.Session.Reports
