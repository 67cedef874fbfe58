/-! # Errors

What can go wrong, by cause: a span list that is no call tree (`InvalidTrace`), a setting that is
refused (`ConfigError`), a store that does not answer (`StoreError`) and a pipeline that no longer
runs (`PipelineError`).  Each has one wording, its `message`. -/

namespace CallTrace

/-- Structural faults of a span list. -/
inductive InvalidTrace where
  | noRoot
  | multipleRoots
  /-- Some spans name a parent that is not there. -/
  | disconnected (orphans : Nat)
  | selfParent (spanId : String)
  | duplicateSpanId (spanId : String)
  | cycle
  | levelMismatch (left right : Nat)
  | noCommonAncestor
deriving DecidableEq, Repr

def InvalidTrace.message : InvalidTrace → String
  | noRoot => "Invalid trace: No root"
  | multipleRoots => "Invalid trace: More than one root span"
  | disconnected orphans =>
      "Invalid trace: Not connected (" ++ toString orphans ++ " orphaned spans)"
  | selfParent spanId => "Invalid trace: Span " ++ spanId ++ " is its own parent"
  | duplicateSpanId spanId => "Invalid trace: Duplicate span id " ++ spanId
  | cycle => "Invalid trace: Spans form a cycle"
  | levelMismatch left right =>
      "Can only calculate for nodes on same level (got " ++ toString left ++ " and "
        ++ toString right ++ ")"
  | noCommonAncestor => "Nodes do not share a common ancestor"

inductive ConfigError where
  | invalid (reason : String)
  | negativeDepthLimit (limit : Int64)
  | unsupportedDigest (name : String)
deriving DecidableEq, Repr

def ConfigError.message : ConfigError → String
  | invalid reason => "Invalid configuration: " ++ reason
  | negativeDepthLimit limit =>
      "Depth limit must not be negative, got " ++ toString limit.toInt
  | unsupportedDigest name =>
      "Unsupported digest algorithm '" ++ name ++ "'. Did you use 'SHA3-256'?"

inductive StoreError where
  | unavailable (reason : String)
  | rejected (reason : String)
deriving DecidableEq, Repr

def StoreError.message : StoreError → String
  | unavailable reason => "Repository unavailable: " ++ reason
  | rejected reason => "Repository rejected record: " ++ reason

inductive PipelineError where
  /-- The worker has stopped and takes no more commands. -/
  | channelClosed
  /-- The worker stopped before it came to answer. -/
  | responseDropped
deriving DecidableEq, Repr

def PipelineError.message : PipelineError → String
  | channelClosed => "Partition worker channel closed"
  | responseDropped => "Partition worker dropped the response"

end CallTrace
