import NornRune.Objects.Theorems.Symbols
import NornRune.Compile.Theorems.Liveness
import NornRune.Compile.Theorems.Rounds
import NornRune.Compile.Theorems.Order
import NornRune.Compile.Theorems.Sharing
import NornRune.Compile.Theorems.Facts
import NornRune.Compile.Theorems.Information
import NornRune.Execution.Theorems.Records
import NornRune.Scheduling.Theorems.Service
import NornRune.Diff.Theorems.Regression
import NornRune.Frontend.Theorems.Rego
import NornRune.Publication.Theorems.Progress
import NornRune.Serving.Theorems.Admission
import NornRune.Serving.Theorems.Handles
import NornRune.Debugging.Theorems.Reuse
import NornRune.Target.Theorems.Pipeline
import NornRune.Debugging.Theorems.Replay
import NornRune.Telemetry.Theorems.Counters
import NornRune.Serving.Theorems.Engine
