/- Why a stored snapshot cannot be used. -/
namespace Statechart

inductive SnapshotDefect where
  | notASnapshot
  | otherChart
  | historyEntryNotADocument
  | invocationWithoutId
  | invocationWithoutState
  | unknownState
  | nodeWithoutDocument
  | nodeOfOtherKind
  | truncated (key : String)
  | checksumMismatch (key : String)
  | missing (session : String)
  | other (reason : String)
deriving DecidableEq, Repr

def SnapshotDefect.reason : SnapshotDefect → String
  | .notASnapshot => "bucket is not a runtime context snapshot"
  | .otherChart => "snapshot was taken from a different chart"
  | .historyEntryNotADocument => "history entry is not a document id"
  | .invocationWithoutId => "invocation without id"
  | .invocationWithoutState => "invocation without state"
  | .unknownState => "snapshot references an unknown state"
  | .nodeWithoutDocument => "stored node has no document id"
  | .nodeOfOtherKind => "stored node type does not match the chart"
  | .truncated key => "snapshot " ++ key ++ " is truncated"
  | .checksumMismatch key => "snapshot " ++ key ++ " checksum mismatch"
  | .missing session => "no snapshot for session " ++ session
  | .other reason => reason

end Statechart
