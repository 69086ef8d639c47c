import Pathway.Command.Console
import Pathway.Command.ImportCourses
import Pathway.Command.Options
import Pathway.Command.RecordActivity
import Pathway.Command.ShowProgress
import Pathway.Command.WriteReport
import Pathway.Course.Module
import Pathway.Course.Place
import Pathway.Course.Reading
import Pathway.Course.Requirement
import Pathway.Course.Sample
import Pathway.CourseFile
import Pathway.Document
import Pathway.Evaluation.Assessment
import Pathway.Evaluation.Closure
import Pathway.Evaluation.Evaluator
import Pathway.Failure
import Pathway.Files.Path
import Pathway.Files.Tree
import Pathway.Issue
import Pathway.Json.Printer
import Pathway.Json.Reader
import Pathway.Main
import Pathway.Navigation.Availability
import Pathway.Navigation.Navigator
import Pathway.Number.Binary64
import Pathway.Number.Reading
import Pathway.Number.Shortest
import Pathway.Prerequisites.Cycles
import Pathway.Prerequisites.Generations
import Pathway.Prerequisites.Graph
import Pathway.Prerequisites.Reach
import Pathway.Prerequisites.Rounds
import Pathway.Progress.Progression
import Pathway.Progress.Reading
import Pathway.Report.Table
import Pathway.Session
import Pathway.Settings.Basic
import Pathway.Settings.Dotenv
import Pathway.Settings.Environment
import Pathway.Store.Basic
import Pathway.Store.Dictionaries
import Pathway.Store.Facts
import Pathway.Store.Rows
import Pathway.Store.Snapshot
import Pathway.Table
import Pathway.Text.Basic
import Pathway.Text.Utf8
import Pathway.Time.Calendar
import Pathway.Time.Instant
import Pathway.Time.Reading
import Pathway.Validation.Checked
import Pathway.Validation.Scalar
import Pathway.Yaml.Cursor
import Pathway.Yaml.Fault
import Pathway.Yaml.Lexer
import Pathway.Yaml.Node
import Pathway.Yaml.Reader
import Pathway.Yaml.Scalar
import Pathway.Yaml.Stamp
import Pathway.Yaml.Tag
import Pathway.Yaml.Token
import Pathway.Yaml.Value
import Pathway.Proofs.Prerequisites.Chain
import Pathway.Proofs.Prerequisites.Graph
import Pathway.Proofs.Prerequisites.Reach
import Pathway.Proofs.Prerequisites.Rounds
import Pathway.Proofs.Prerequisites.Components
import Pathway.Proofs.Prerequisites.Generations
import Pathway.Proofs.Evaluation.Closure
import Pathway.Proofs.Evaluation.Plan
import Pathway.Proofs.Evaluation.Outcome
import Pathway.Proofs.Evaluation.Requests
import Pathway.Proofs.Evaluation.Gating
import Pathway.Proofs.Evaluation.Process
import Pathway.Proofs.Evaluation.Interleaving
import Pathway.Proofs.Evaluation.Parallel
import Pathway.Proofs.Evaluation.Assessment
import Pathway.Proofs.Evaluation.Steps
import Pathway.Proofs.Evaluation.Repetition
import Pathway.Proofs.Evaluation.Improvement
import Pathway.Proofs.Evaluation.Monotone
import Pathway.Proofs.Evaluation.Accord
import Pathway.Proofs.Navigation.Accord
import Pathway.Proofs.Calls.Basic
import Pathway.Proofs.Evaluation.Plain
import Pathway.Proofs.Calls.Mirror
import Pathway.Proofs.Calls.Sameness
import Pathway.Proofs.Calls.Equivalence
import Pathway.Proofs.Calls.History
import Pathway.Proofs.Calls.Sticky
import Pathway.Proofs.Evaluation.CatchUp
import Pathway.Proofs.Navigation.Chain
import Pathway.Proofs.Navigation.Summary
import Pathway.Proofs.Navigation.Availability
import Pathway.Proofs.Navigation.Gates
import Pathway.Proofs.Navigation.Views
import Pathway.Proofs.Evaluation.Earned
import Pathway.Proofs.Calls.Frequency
import Pathway.Proofs.Calls.Changes
import Pathway.Proofs.Calls.ReadBack
import Pathway.Proofs.Calls.Boundary
import Pathway.Proofs.Evaluation.Locality
import Pathway.Proofs.Calls.Acting
import Pathway.Proofs.Calls.Atomicity
import Pathway.Proofs.Prerequisites.Circles
import Pathway.Proofs.Calls.Totality
import Pathway.Proofs.Calls.Isolation
import Pathway.Proofs.Calls.FactLocality
import Pathway.Proofs.Evaluation.Previous
import Pathway.Proofs.Calls.Relaxation
import Pathway.Proofs.Evaluation.Traffic
import Pathway.Proofs.Evaluation.Lasting
import Pathway.Proofs.Calls.Courses
import Pathway.Proofs.Course.Loading
import Pathway.Proofs.Course.Validation
import Pathway.Proofs.Command.Files
import Pathway.Proofs.Command.Import
import Pathway.Proofs.Prerequisites.Schedule
import Pathway.Proofs.Prerequisites.Elementary
import Pathway.Proofs.Prerequisites.Enumeration
import Pathway.Proofs.Prerequisites.Search
import Pathway.Proofs.Evaluation.Reporting
import Pathway.Proofs.Calls.CircleReports
import Pathway.Proofs.Evaluation.Depth
import Pathway.Proofs.Evaluation.Partition
import Pathway.Proofs.Navigation.Pending
import Pathway.Proofs.Evaluation.Trail
import Pathway.Proofs.Evaluation.Findings
import Pathway.Proofs.Evaluation.Saving
import Pathway.Proofs.Calls.Issues
import Pathway.Proofs.Calls.Saves
import Pathway.Proofs.Navigation.Flags
import Pathway.Proofs.Calls.Collapse
import Pathway.Proofs.Navigation.Opening
import Pathway.Proofs.Navigation.Walks
import Pathway.Proofs.Calls.Closures
import Pathway.Proofs.Evaluation.WriteOnce
import Pathway.Proofs.Report.Table
import Pathway.Proofs.Command.Report
