import Polystore.Connection.Address
import Polystore.Connection.Certificate
import Polystore.Connection.Settings
import Polystore.Postgres.Conversation
import Polystore.Predicate.Build
import Polystore.Proofs.Bson.Storage
import Polystore.Proofs.Document.Independence
import Polystore.Proofs.Document.Paths
import Polystore.Proofs.Document.Preservation
import Polystore.Proofs.Postgres.Precision
import Polystore.Proofs.Postgres.RoundTrip
import Polystore.Proofs.Sql.Independence
import Polystore.Proofs.Sql.Preservation
import Polystore.Proofs.Transaction.Abandoned
import Polystore.Proofs.Transaction.Siblings
import Polystore.Resp
import Polystore.Sql.Draft
import Polystore.Sql.PrimaryKey
import Polystore.Transaction.Script
import Polystore.Proofs.Postgres.Demands
import Polystore.Proofs.Bson.Exactness
import Polystore.Proofs.Transaction.Rounds
import Polystore.Proofs.Transaction.Undoing
import Polystore.Proofs.Transaction.Leftovers
import Polystore.Proofs.Predicate.Acceptance
import Polystore.Proofs.Document.Literals
import Polystore.Proofs.Value.Recovery
import Polystore.Proofs.Resp.Scalars
import Polystore.Proofs.Document.Wording
import Polystore.Proofs.Connection.Written
import Polystore.Proofs.Connection.Saved
import Polystore.Proofs.Sql.Tuples
import Polystore.Proofs.Transaction.Streaming
import Polystore.Proofs.Transaction.Reentry
import Polystore.Proofs.Sql.Appending
import Polystore.Proofs.Sql.Conjunction
import Polystore.Proofs.Sql.Misuse
import Polystore.Proofs.Sql.Quoting
import Polystore.Proofs.Predicate.Building
import Polystore.Proofs.Calendar.Spelled
import Polystore.Proofs.Postgres.Instants
import Polystore.Proofs.Postgres.Fractions
import Polystore.Proofs.Value.Equality
import Polystore.Proofs.Value.Form
import Polystore.Proofs.Connection.Edits
import Polystore.Proofs.Connection.Pairs
import Polystore.Proofs.Number.Approximation
import Polystore.Proofs.Number.Whole
import Polystore.Proofs.Postgres.Conversion
import Polystore.Proofs.Postgres.Places
