import RunDispatch.Engine.Call
import RunDispatch.Simulation.Engine
import RunDispatch.Simulation.Rehearsal
import RunDispatch.Simulation.Solo
import RunDispatch.Store.Database
import RunDispatch.Proofs.Run.Deeds
import RunDispatch.Proofs.Container.Told
import RunDispatch.Proofs.Run.Course
import RunDispatch.Proofs.Run.Compensation
import RunDispatch.Proofs.Run.Verdict
import RunDispatch.Proofs.Marker
import RunDispatch.Proofs.Worker.History
import RunDispatch.Proofs.Worker.Exclusion
import RunDispatch.Proofs.Worker.Expiry
import RunDispatch.Proofs.Run.Release
import RunDispatch.Proofs.Worker.LastWrite
import RunDispatch.Proofs.Worker.Standing
import RunDispatch.Proofs.Worker.Breakdown
import RunDispatch.Proofs.Worker.Slots
import RunDispatch.Proofs.Worker.Shutdown
import RunDispatch.Proofs.Worker.Independence
import RunDispatch.Proofs.Text.Utf8
import RunDispatch.Proofs.Acceptance
import RunDispatch.Proofs.Http.Service
import RunDispatch.Proofs.Json.Grammar
import RunDispatch.Proofs.Records
import RunDispatch.Proofs.Json.Kept
import RunDispatch.Proofs.Payload
import RunDispatch.Proofs.Marker.Interleaving
import RunDispatch.Proofs.Engine.Host
import RunDispatch.Proofs.Run.Mounted
import RunDispatch.Proofs.Worker.Errands
import RunDispatch.Proofs.Worker.Foreign
import RunDispatch.Proofs.Engine.Framing
import RunDispatch.Proofs.Worker.Running
import RunDispatch.Proofs.Settings.Reading
import RunDispatch.Proofs.Staging.Failing
import RunDispatch.Proofs.Container.Sequence
import RunDispatch.Proofs.Engine.Waiting
import RunDispatch.Proofs.Engine.Contract
import RunDispatch.Proofs.Staging.Released
import RunDispatch.Proofs.Image
import RunDispatch.Proofs.Marker.Timed
import RunDispatch.Proofs.Connector.Spelling
import RunDispatch.Proofs.Staging.Clearing
import RunDispatch.Proofs.Worker.Cleanup
import RunDispatch.Proofs.Worker.Retention
import RunDispatch.Proofs.Engine.Input
