import DataAvailability.Codec
import DataAvailability.Types
import DataAvailability.Db.Sql
import DataAvailability.Db.PgDB
import DataAvailability.Db.Refinement
import DataAvailability.Db.Integrity
import DataAvailability.Db.Batches
import DataAvailability.Db.Reads
import DataAvailability.AccInputHash
import DataAvailability.Signature
import DataAvailability.Sequencer.Tracker
import DataAvailability.Sequencer.Follow
import DataAvailability.Sequencer.History
import DataAvailability.Sequencer.Shutdown
