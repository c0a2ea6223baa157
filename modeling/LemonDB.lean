import LemonDB.Db.DumpLoad
import LemonDB.Scheduler.IndexRuns
import LemonDB.Runtime.Listening
import LemonDB.Runtime.Quit
import LemonDB.Runtime.RoundTrip
import LemonDB.Runtime.RowOrderRuns
import LemonDB.Runtime.TotalCorrectness
import LemonDB.Query.AddSub
import LemonDB.Query.Formatter
import LemonDB.Query.FullRows
import LemonDB.Query.RowOrder
import LemonDB.Query.KeyCondition
import LemonDB.Query.KeyedTables
import LemonDB.Query.SelectOrder
import LemonDB.Query.Literals
import LemonDB.Query.LoadStream
import LemonDB.Query.TokenIterator
import LemonDB.Scheduler.Backwards
import LemonDB.Scheduler.Barriers
import LemonDB.Scheduler.Dependencies
import LemonDB.Scheduler.Fences
import LemonDB.Scheduler.KeyOrder
import LemonDB.Scheduler.LoadOrder
import LemonDB.Scheduler.NoDuplicates
import LemonDB.Scheduler.Payloads
import LemonDB.Scheduler.Rounds
import LemonDB.Scheduler.TableOrder
import LemonDB.Scheduler.WakeUps
