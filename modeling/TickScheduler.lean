import TickScheduler.Main
import TickScheduler.Proofs.Deletion.Namesakes
import TickScheduler.Proofs.Edits.SavedCursors
import TickScheduler.Proofs.Once.Handouts
import TickScheduler.Proofs.Once.RacingEdits
import TickScheduler.Proofs.Once.Restarts
import TickScheduler.Proofs.Once.StaleCopies
import TickScheduler.Proofs.Schedule.Rounds
import TickScheduler.Simulation.Machine
import TickScheduler.Proofs.Edits.Reschedules
import TickScheduler.Proofs.Entry.Ticks
import TickScheduler.Proofs.Schedule.Announcements
import TickScheduler.Proofs.Schedule.Forecast
import TickScheduler.Proofs.Schedule.Lookahead
import TickScheduler.Proofs.Program.Transcripts
import TickScheduler.Proofs.Results.Bustle
import TickScheduler.Proofs.Results.Lives
import TickScheduler.Proofs.Results.LifeCycle
import TickScheduler.Proofs.Results.Recording
import TickScheduler.Proofs.Results.Pending
import TickScheduler.Proofs.Engine.Inlining
import TickScheduler.Proofs.Results.Accounts
import TickScheduler.Proofs.Results.Background
import TickScheduler.Proofs.Edits.Commons
import TickScheduler.Proofs.Stops.LastPass
import TickScheduler.Proofs.Stops.Status
import TickScheduler.Proofs.Failures.Isolation
import TickScheduler.Proofs.Entry.Leftovers
import TickScheduler.Proofs.Entry.Slices
import TickScheduler.Proofs.Stops.Idling
import TickScheduler.Proofs.Entry.Conservation
import TickScheduler.Proofs.Entry.OneShot
import TickScheduler.Proofs.Timestamp.Calendar
import TickScheduler.Proofs.Timestamp.RoundTrip
import TickScheduler.Proofs.Results.Retention
import TickScheduler.Proofs.Results.Survival
import TickScheduler.Proofs.Entry.Draws
import TickScheduler.Proofs.Entry.Admission
import TickScheduler.Proofs.Queue.Heap
import TickScheduler.Proofs.Stops.Breaker
import TickScheduler.Proofs.Entry.SizeHints
import TickScheduler.Proofs.Words.Assembly
