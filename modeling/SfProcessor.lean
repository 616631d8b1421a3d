import SfProcessor.Engine.Criterion
import SfProcessor.Engine.Interpreter
import SfProcessor.Engine.WorkerPool
import SfProcessor.Engine.Shutdown
import SfProcessor.Engine.Order
import SfProcessor.Falco.Strings
import SfProcessor.Falco.Record
import SfProcessor.Falco.Mapper
import SfProcessor.Falco.Views
import SfProcessor.Falco.Operations
import SfProcessor.Falco.Policy
import SfProcessor.Falco.Lists
import SfProcessor.Falco.Compiler
import SfProcessor.Falco.CompilerCorrectness
import SfProcessor.Falco.Termination
import SfProcessor.Falco.Pipeline
import SfProcessor.Tailer.Utf8
import SfProcessor.Tailer.Decode
import SfProcessor.Tailer.Lines
import SfProcessor.Tailer.FileStream
import SfProcessor.Tailer.Completion
import SfProcessor.Tailer.Invariants
import SfProcessor.Tailer.ReadLoop
import SfProcessor.Tailer.AppendOnly
import SfProcessor.Tailer.Stop
import SfProcessor.Tailer.Rotation
import SfProcessor.Tailer.Truncation
